import Munin.Journeys.Runtime.Transactions

/-!
# Enrollments and their waits

An enrollment that runs has no open wait, one that waits has one, and one that has ended has nothing
left that could wake it.

* **`WaitsOk`** — the invariant of one file. It says more of a running enrollment than the claim
  does: none of its waits is open, which is why the wait that a step opens is the only one.
* **`waitsOk_runNode`, `waitsOk_apply`** — each step keeps it, save the worker's late `reschedule`
  of an enrollment that has ended.
* **`enrollment_waits`** — the invariant in every state reached.
-/

namespace Munin

open Foundations

/-! ### The open waits after each write -/

section OpenWaits

variable (f : EnrollmentFile)

@[simp]
theorem openWaits_updateRow (g : Enrollment → Enrollment) :
    (f.updateRow g).openWaits = f.openWaits := rfl

@[simp]
theorem stillWaiting_updateRow (g : Enrollment → Enrollment) (kind : WaitKind) :
    (f.updateRow g).stillWaiting kind = f.stillWaiting kind := rfl

@[simp]
theorem openWaits_updateSteps (p : StepRun → Bool) (g : StepRun → StepRun) :
    (f.updateSteps p g).openWaits = f.openWaits := rfl

/-- A write that resolves the waits it changes leaves the others open. -/
theorem openWaits_updateWaits (p : JourneyWait → Bool) (g : JourneyWait → JourneyWait)
    (hg : ∀ w, p w = true → (g w).isOpen = false) :
    (f.updateWaits p g).openWaits = f.openWaits.filter fun w => !p w := by
  unfold EnrollmentFile.openWaits EnrollmentFile.updateWaits
  induction f.waits with
  | nil => rfl
  | cons w ws ih =>
    rw [List.map_cons]
    cases hp : p w with
    | true =>
      rw [if_pos rfl, List.filter_cons_of_neg (by simp [hg w hp]), ih]
      cases hw : w.isOpen with
      | true => rw [List.filter_cons_of_pos hw, List.filter_cons_of_neg (by simp [hp])]
      | false => rw [List.filter_cons_of_neg (by simp [hw])]
    | false =>
      rw [if_neg Bool.false_ne_true]
      cases hw : w.isOpen with
      | true =>
        rw [List.filter_cons_of_pos hw, List.filter_cons_of_pos hw,
          List.filter_cons_of_pos (by simp [hp]), ih]
      | false => rw [List.filter_cons_of_neg (by simp [hw]),
          List.filter_cons_of_neg (by simp [hw]), ih]

@[simp]
theorem openWaits_cancelWaits (clock : Instant) : (f.cancelWaits clock).openWaits = [] := by
  rw [EnrollmentFile.cancelWaits, openWaits_updateWaits _ _ _ fun _ _ => rfl,
    List.filter_eq_nil_iff]
  intro w hw
  have hopen : w.isOpen = true := (List.mem_filter.1 hw).2
  simp [hopen]

@[simp]
theorem openWaits_closeOpenSteps (reason : String) (clock : Instant) :
    (f.closeOpenSteps reason clock).openWaits = [] :=
  openWaits_cancelWaits f clock

@[simp]
theorem openWaits_openWait (stepRunId : Nat) (wait : WaitSpec) (clock : Instant) :
    (f.openWait stepRunId wait clock).openWaits =
      f.openWaits ++ [f.newWait stepRunId wait clock] := by
  unfold EnrollmentFile.openWait EnrollmentFile.openWaits
  rw [List.filter_append, List.filter_cons_of_pos rfl, List.filter_nil]

end OpenWaits

/-! ### The invariant -/

/-- The waits that are no reply's. -/
def EnrollmentFile.stepWaits (f : EnrollmentFile) : List JourneyWait :=
  f.openWaits.filter (·.kind ≠ .conversationClose)

variable {late : Prop}

/-- The invariant of an enrollment and its waits; `late` is whether an enrollment that has ended may
have been given a next run. -/
structure WaitsOk (late : Prop) (f : EnrollmentFile) : Prop where
  active : f.row.state = .active → f.openWaits = []
  waiting : f.row.state = .waiting → f.openWaits ≠ []
  single : f.stepWaits.length ≤ 1
  finished : f.row.state.isOpen = false →
    f.openWaits = [] ∧ f.row.currentNode = none ∧ (late ∨ f.row.nextRunAt = none)

variable {f g : EnrollmentFile} {specs : Nat → Option JourneySpec} {clock : Instant}

/-- Without open waits there are none of a step. -/
theorem stepWaits_of_openWaits (h : f.openWaits = []) : f.stepWaits.length ≤ 1 := by
  simp [EnrollmentFile.stepWaits, h]

/-- An enrollment that runs and has no open wait. -/
theorem waitsOk_of_active (hstate : f.row.state = .active)
    (h : f.openWaits = []) : WaitsOk late f where
  active _ := h
  waiting hw := absurd (hstate.symm.trans hw) (by decide)
  single := stepWaits_of_openWaits h
  finished hf := by simp [hstate, EnrollmentState.isOpen] at hf

/-- A write that leaves the waits, the state and the node alone; and the time of the next run too,
unless the enrollment is open. -/
theorem WaitsOk.frame (hf : WaitsOk late f) (hwaits : g.openWaits = f.openWaits)
    (hstate : g.row.state = f.row.state) (hnode : g.row.currentNode = f.row.currentNode)
    (hnext : f.row.state.isOpen = true ∨ g.row.nextRunAt = f.row.nextRunAt) : WaitsOk late g where
  active h := by
    rw [hwaits]
    exact hf.active (hstate ▸ h)
  waiting h := by
    rw [hwaits]
    exact hf.waiting (hstate ▸ h)
  single := by
    rw [EnrollmentFile.stepWaits, hwaits]
    exact hf.single
  finished h := by
    rw [hstate] at h
    obtain ⟨hnone, hcurrent, hrun⟩ := hf.finished h
    rw [hwaits, hnode]
    refine ⟨hnone, hcurrent, ?_⟩
    rcases hnext with hopen | hsame
    · rw [h] at hopen
      cases hopen
    · rwa [hsame]

theorem WaitsOk.kept (hf : WaitsOk late f) (h : Kept f g) : WaitsOk late g := by
  obtain ⟨thread, goal, hrow⟩ := h.row
  have hopen : g.openWaits = f.openWaits := by
    rw [EnrollmentFile.openWaits, EnrollmentFile.openWaits, h.waits]
  refine hf.frame hopen ?_ ?_ (.inr ?_) <;> rw [hrow]

/-- `isOpen` of a state. -/
theorem isOpen_iff {s : EnrollmentState} : s.isOpen = true ↔ s = .active ∨ s = .waiting := by
  cases s <;> simp [EnrollmentState.isOpen]

/-! ### Ends and waits -/

section Keeps

variable (hf : WaitsOk late f)

include hf

theorem waitsOk_finish (reason : String)
    (clock : Instant) : WaitsOk late (f.finish reason clock) := by
  unfold EnrollmentFile.finish
  split
  · have hwaits : ∀ (g : EnrollmentFile) (text : String) (exits : List JourneyExited),
        ({ g.closeOpenSteps text clock with exits } : EnrollmentFile).openWaits = [] :=
      fun g text _ => openWaits_closeOpenSteps g text clock
    refine ⟨fun _ => hwaits _ _ _, fun h => ?_, stepWaits_of_openWaits (hwaits _ _ _), fun _ =>
      ⟨hwaits _ _ _, rfl, .inr rfl⟩⟩
    change (if reason ∈ COMPLETED_REASONS then EnrollmentState.done else .exited) = .waiting at h
    split at h <;> cases h
  · exact hf

/-- A wait is opened by a step that runs, or by a reply. -/
theorem waitsOk_openWait (stepRunId : Nat) {wait : WaitSpec} (clock : Instant)
    (h : f.openWaits = [] ∨ wait.kind = .conversationClose) :
    WaitsOk late (f.openWait stepRunId wait clock) := by
  refine ⟨fun hs => ?_, fun _ => ?_, ?_, fun hs => ?_⟩
  · cases hs
  · simp
  · unfold EnrollmentFile.stepWaits
    rw [openWaits_openWait]
    rcases h with hnone | hclose
    · rw [hnone, List.nil_append]
      exact List.length_filter_le _ _
    · have hkind : (f.newWait stepRunId wait clock).kind = .conversationClose := hclose
      rw [List.filter_append, List.filter_cons_of_neg (by simp [hkind]), List.filter_nil,
        List.append_nil]
      exact hf.single
  · cases hs

/-- **Resolving a wait.** What is left decides whether the enrollment goes on waiting. -/
theorem waitsOk_resolveWait (id : Nat) (resolution : String) (context : Record) (clock : Instant) :
    WaitsOk late (f.resolveWait id resolution context clock) := by
  unfold EnrollmentFile.resolveWait
  split
  · exact hf
  · rename_i wait hfind
    have hmem : wait ∈ f.openWaits := List.mem_of_find?_eq_some hfind
    have hid : wait.id = id := by simpa using List.find?_some hfind
    -- An enrollment with an open wait waits.
    have hstate : f.row.state = .waiting := by
      cases hs : f.row.state with
      | waiting => rfl
      | active => simp [hf.active hs] at hmem
      | done | exited | failed =>
        have hnone := (hf.finished (by rw [hs]; rfl)).1
        simp [hnone] at hmem
    generalize hg : f.updateWaits (fun w => w.id = id && w.isOpen)
      (fun w => { w with resolvedAt := clock, resolution }) = g
    have hrow : g.row = f.row := by rw [← hg]; rfl
    have hsub : ∀ w ∈ g.openWaits, w ∈ f.openWaits ∧ w.id ≠ id := by
      intro w hw
      rw [← hg, openWaits_updateWaits _ _ _ fun _ _ => rfl] at hw
      obtain ⟨hwf, hne⟩ := List.mem_filter.1 hw
      have hopen : w.isOpen = true := (List.mem_filter.1 hwf).2
      refine ⟨hwf, fun heq => ?_⟩
      simp [heq, hopen] at hne
    have hsingle : g.stepWaits.length ≤ 1 := by
      have hsublist : g.stepWaits.Sublist f.stepWaits := by
        rw [← hg]
        unfold EnrollmentFile.stepWaits
        rw [openWaits_updateWaits _ _ _ fun _ _ => rfl]
        exact List.filter_sublist.filter _
      exact Nat.le_trans hsublist.length_le hf.single
    dsimp only
    rw [hrow, hstate, if_neg (by simp)]
    split
    · rename_i hstill
      refine ⟨fun hs => ?_, fun _ hnone => ?_, hsingle, fun hs => ?_⟩
      · have hs' : g.row.state = .active := hs
        rw [hrow, hstate] at hs'
        cases hs'
      · have hg' : g.openWaits = [] := hnone
        simp [EnrollmentFile.stillWaiting, hg'] at hstill
      · have hs' : g.row.state.isOpen = false := hs
        rw [hrow, hstate] at hs'
        cases hs'
    · rename_i hstill
      refine waitsOk_of_active rfl ?_
      have hstill' : g.stillWaiting wait.kind = false := by simpa using hstill
      unfold EnrollmentFile.stillWaiting at hstill'
      split at hstill'
      · simpa using hstill'
      · -- No reply is waited for, and the step's wait was the only other one.
        rename_i hkind
        refine List.eq_nil_iff_forall_not_mem.2 fun w hw => ?_
        obtain ⟨hwf, hne⟩ := hsub w hw
        have hstep : w.kind ≠ .conversationClose := by
          simpa using List.any_eq_false.1 hstill' w hw
        have hw' : w ∈ f.stepWaits := List.mem_filter.2 ⟨hwf, by simpa using hstep⟩
        have hwait : wait ∈ f.stepWaits := List.mem_filter.2 ⟨hmem, by simpa using hkind⟩
        have hlen := hf.single
        cases hlist : f.stepWaits with
        | nil => simp [hlist] at hw'
        | cons a rest =>
          rw [hlist] at hlen hw' hwait
          have hrest : rest = [] := by
            simpa using hlen
          subst hrest
          rw [List.mem_singleton] at hw' hwait
          exact hne (by rw [hw', ← hwait, hid])

theorem waitsOk_onEvent (event : RuntimeEvent)
    (clock : Instant) : WaitsOk late (f.onEvent event clock) := by
  unfold EnrollmentFile.onEvent
  dsimp only
  generalize f.openWaits.filter _ = waits
  induction waits generalizing f with
  | nil => exact hf
  | cons w ws ih => exact ih (waitsOk_resolveWait hf _ _ _ _)

/-! ### Runs -/

/-- A write to the row of an open enrollment that leaves its state and node alone. -/
theorem WaitsOk.updateRow {g : Enrollment → Enrollment}
    (hstate : (g f.row).state = f.row.state) (hnode : (g f.row).currentNode = f.row.currentNode)
    (hnext : f.row.state.isOpen = true ∨ (g f.row).nextRunAt = f.row.nextRunAt) :
    WaitsOk late (f.updateRow g) :=
  hf.frame rfl hstate hnode hnext

theorem WaitsOk.updateSteps (p : StepRun → Bool)
    (g : StepRun → StepRun) : WaitsOk late (f.updateSteps p g) :=
  hf.frame rfl rfl rfl (.inr rfl)

theorem WaitsOk.insertRun (run : StepRun)
    (executed : Bool) : WaitsOk late (f.insertRun run executed) :=
  hf.frame rfl rfl rfl (.inr rfl)

theorem waitsOk_leave (hactive : f.row.state = .active)
    (env : StepEnv) (spec : JourneySpec) (outcome : Outcome) :
    WaitsOk late (f.leave env spec outcome).1 := by
  unfold EnrollmentFile.leave
  split
  · exact waitsOk_finish hf _ _
  · split
    · exact waitsOk_finish hf _ _
    · exact waitsOk_of_active hactive (hf.active hactive)
  · exact hf
  · exact hf

/-- The one wait of an enrollment that runs is the one that its step opens. -/
theorem waitsOk_settle (hactive : f.row.state = .active)
    (env : StepEnv) (spec : JourneySpec) (runId attempt : Nat) (outcome : Outcome) :
    WaitsOk late (f.settle env spec runId attempt outcome).1 := by
  have hopen : f.row.state.isOpen = true := isOpen_iff.2 (.inl hactive)
  unfold EnrollmentFile.settle
  split
  · exact hf.frame rfl rfl rfl (.inl hopen)
  · exact waitsOk_openWait (hf.updateSteps _ _) _ _ (.inl (hf.active hactive))
  · exact waitsOk_leave (hf.updateSteps _ _) hactive env spec _
  · exact waitsOk_leave (hf.updateSteps _ _) hactive env spec _

omit hf in
/-- The run that a visit finds or inserts leaves the row and the waits alone. -/
theorem enterRun_frame (f : EnrollmentFile) (node : JourneyNode) (visit : Nat) :
    (f.enterRun node visit).1.row = f.row ∧
      (f.enterRun node visit).1.openWaits = f.openWaits := by
  unfold EnrollmentFile.enterRun
  split <;> exact ⟨rfl, rfl⟩

theorem waitsOk_runVisit (hactive : f.row.state = .active)
    {env : StepEnv} {spec : JourneySpec} {node : JourneyNode} {visit : Nat} {more : Bool}
    (h : f.runVisit env spec node visit = .ok (g, more)) : WaitsOk late g := by
  have hopen : f.row.state.isOpen = true := isOpen_iff.2 (.inl hactive)
  rcases EnrollmentFile.runVisit_cases h with
    ⟨-, rfl, -⟩ | ⟨run, -, -, hg⟩ | ⟨k, outcome, hexec, hg⟩
  · exact hf.updateRow rfl rfl (.inl hopen)
  · have hleft : g = (f.leave env spec (storedOutcome node run)).1 := congrArg Prod.fst hg
    rw [hleft]
    exact waitsOk_leave hf hactive env spec _
  · obtain ⟨hrow, hwaits⟩ := enterRun_frame f node visit
    have hentered : WaitsOk late (f.enterRun node visit).1 :=
      hf.frame hwaits (by rw [hrow]) (by rw [hrow]) (.inl hopen)
    have hkept := kept_execute hexec
    obtain ⟨thread, goal, hk⟩ := hkept.row
    have hkactive : k.row.state = .active := by
      rw [hk, hrow]
      exact hactive
    have hsettled : g = (k.settle env spec _ _ outcome).1 := congrArg Prod.fst hg
    rw [hsettled]
    exact waitsOk_settle (hentered.kept hkept) hkactive env spec _ _ outcome

/-- **A node that runs** keeps the invariant. -/
theorem waitsOk_runNode {env : StepEnv} {more : Bool}
    (h : f.runNode specs env = .ok (g, more)) : WaitsOk late g := by
  rcases EnrollmentFile.runNode_cases h with
    ⟨rfl, -⟩ | ⟨hactive, current, spec, -, -, ⟨reason, rfl, -⟩ | ⟨node, visit, -, -, -, hvisit⟩⟩
  · exact hf
  · exact waitsOk_finish hf _ _
  · exact waitsOk_runVisit hf hactive hvisit

theorem waitsOk_clearErrors : WaitsOk late f.clearErrors := by
  unfold EnrollmentFile.clearErrors
  split
  · exact hf.updateRow rfl rfl (.inr rfl)
  · exact hf

theorem waitsOk_recordFailed {message : String}
    (h : f.recordFailed specs message clock = .ok g) : WaitsOk late g := by
  rcases EnrollmentFile.recordFailed_eq_ok h with rfl | ⟨_, _, ⟨_, rfl⟩ | ⟨-, _, rfl⟩⟩
  · exact hf
  · exact hf.updateSteps _ _
  · exact hf.insertRun _ _

theorem waitsOk_recordStepError {message : String} {now : Instant}
    (h : f.recordStepError specs message now clock = .ok g) : WaitsOk late g := by
  rcases EnrollmentFile.recordStepError_eq_ok h with rfl | ⟨hactive, k, hk, hcase⟩
  · exact hf
  have hcounted : WaitsOk late k := hk ▸ hf.updateRow rfl rfl (.inr rfl)
  have hopen : k.row.state.isOpen = true := by
    rw [hk]
    exact isOpen_iff.2 (.inl hactive)
  rcases hcase with ⟨_, rfl⟩ | ⟨_, hfailed, rfl⟩
  · exact hcounted.updateRow rfl rfl (.inl hopen)
  · exact waitsOk_finish (waitsOk_recordFailed hcounted hfailed) _ _

/-! ### The other steps -/

theorem waitsOk_handleReply {reply : Reply}
    (h : f.handleReply specs reply clock = some g) : WaitsOk late g := by
  rcases handleReply_eq_some h with
    rfl | ⟨-, _, _, _, -, -, ⟨_, _, -, -, -, rfl⟩ | ⟨wait, hkind, rfl⟩⟩
  · exact hf
  · exact waitsOk_of_active rfl (openWaits_closeOpenSteps f "the contact replied" clock)
  · exact (waitsOk_openWait hf _ _ (.inr hkind)).updateRow rfl rfl (.inr rfl)

theorem waitsOk_submit {seen : StepRun} {input : Submission}
    (h : f.submit specs seen input clock = some g) : WaitsOk late g := by
  obtain ⟨_, _, _, _, hsubmitted⟩ := submit_eq_some h
  rw [hsubmitted.file]
  exact waitsOk_resolveWait ((hf.updateRow rfl rfl (.inr rfl)).updateSteps _ _) _ _ _ _

theorem waitsOk_decideApproval {id : Nat}
    {approve : Bool} (h : f.decideApproval id approve clock = some g) :
    WaitsOk late g := by
  unfold EnrollmentFile.decideApproval at h
  obtain ⟨approval, -, rfl⟩ := Option.map_eq_some_iff.1 h
  have happrovals : ∀ p k, WaitsOk late (f.updateApprovals p k) :=
    fun p k => hf.frame rfl rfl rfl (.inr rfl)
  dsimp only
  split
  · exact happrovals _ _
  · exact waitsOk_resolveWait (happrovals _ _) _ _ _ _

theorem waitsOk_move (plan : EnrollmentFile.PlannedMove)
    (toVersion : Nat) (now : Instant) : WaitsOk late (f.move plan toVersion now) := by
  rcases move_cases f plan toVersion now with hsame | ⟨-, -, -, _, ⟨-, hmove⟩ | hmove⟩
  · rwa [hsame]
  · rw [hmove]
    exact hf.updateRow rfl rfl (.inr rfl)
  · rw [hmove]
    exact waitsOk_of_active rfl (openWaits_cancelWaits f now)

/-- A step of the worker's catch finds the enrollment open. -/
def RescheduleOpen (f : EnrollmentFile) : FileAct → Prop
  | .reschedule _ => f.row.state.isOpen = true
  | _ => True

/-- **Every step on a file** keeps the invariant; `reschedule` gives a next run to an enrollment
that is open, or that may have one. -/
theorem waitsOk_apply {a : FileAct} (hguard : late ∨ RescheduleOpen f a)
    (h : a.apply specs f = some g) : WaitsOk late g := by
  cases a with
  | recordStepError message now clock =>
    exact waitsOk_recordStepError hf (recordStepError_of_apply h)
  | reschedule now =>
    cases h
    rcases hguard with hlate | hopen
    · refine ⟨hf.active, hf.waiting, hf.single, fun hended => ?_⟩
      obtain ⟨hnone, hnode, -⟩ := hf.finished hended
      exact ⟨hnone, hnode, .inl hlate⟩
    · exact hf.updateRow rfl rfl (.inl hopen)
  | resolveWait id resolution cause clock =>
    cases h
    exact waitsOk_resolveWait hf _ _ _ _
  | event e clock =>
    cases h
    exact waitsOk_onEvent hf e clock
  | reply r clock => exact waitsOk_handleReply hf h
  | submit seen input clock => exact waitsOk_submit hf h
  | decideApproval id approve clock => exact waitsOk_decideApproval hf h
  | rememberThread conversationId =>
    cases h
    exact hf.kept (kept_rememberThread f conversationId)
  | markGoal clock =>
    cases h
    exact hf.kept (kept_markGoal f clock)
  | finish reason clock =>
    cases h
    exact waitsOk_finish hf _ _
  | move toVersion nodeMap seen held now =>
    obtain ⟨fromSpec, -, h⟩ := Option.bind_eq_some_iff.1 h
    obtain ⟨toSpec, -, rfl⟩ := Option.map_eq_some_iff.1 h
    split
    · exact hf
    · exact waitsOk_move hf _ _ _
  | resumeNode node clock =>
    cases h
    unfold EnrollmentFile.resumeNode
    split
    · rename_i hactive
      exact hf.updateRow rfl rfl (.inl (isOpen_iff.2 (.inl hactive.1)))
    · exact hf
  | purgeTraces =>
    cases h
    rcases purgeTraces_cases f with hsame | ⟨hclosed, hpurged⟩
    · rwa [hsame]
    · rw [hpurged]
      exact hf.frame ((hf.finished hclosed).1.symm ▸ rfl) rfl rfl (.inr rfl)

end Keeps

/-! ### Every enrollment -/

/-- An enrollment that was just inserted. -/
theorem waitsOk_file (e : NewEnrollment) (spec : JourneySpec) : WaitsOk late (e.file spec) := by
  have hnone : (e.file spec).openWaits = [] := rfl
  refine ⟨fun _ => hnone, fun h => ?_, stepWaits_of_openWaits hnone, fun h => ⟨hnone, ?_⟩⟩
  · simp only [NewEnrollment.file] at h
    split at h <;> cases h
  · simp only [NewEnrollment.file] at h ⊢
    split at h
    · rename_i hheld
      simp [hheld]
    · cases h

/-- The worker's catch finds the enrollment open. -/
def LateReschedule (s : RuntimeState) : RuntimeStep → Prop
  | .act id a _ => ∀ f, s.files id = some f → RescheduleOpen f a
  | .enroll _ | .node .. | .exited .. | .giveUp _ => True

/-- What holds of every file. -/
def EveryFile (P : EnrollmentFile → Prop) (s : RuntimeState) : Prop :=
  ∀ id f, s.files id = some f → P f

section EveryFile

variable {P : EnrollmentFile → Prop} {s t : RuntimeState} {specs : Specs}

theorem EveryFile.write (hs : EveryFile P s) {id : String} {f g : EnrollmentFile} {running : Bool}
    (hg : P g) : EveryFile P (s.write id f g running) := by
  intro id' f' hf'
  by_cases hid : id' = id
  · subst hid
    rw [s.files_write_self] at hf'
    exact Option.some.inj hf' ▸ hg
  · rw [s.files_write_of_ne hid] at hf'
    exact hs id' f' hf'

theorem EveryFile.insert (hs : EveryFile P s) {e : NewEnrollment}
    (hnew : ∀ spec, P (e.file spec)) (h : s.insert specs e = some t) : EveryFile P t := by
  obtain ⟨-, spec, -, hself, hother, -⟩ := s.insert_eq_some h
  intro id f hf
  by_cases hid : id = e.id
  · subst hid
    rw [hself] at hf
    exact Option.some.inj hf ▸ hnew spec
  · rw [hother id hid] at hf
    exact hs id f hf

/-- **The rule for what holds of every file**: it holds of a new one, and the steps on a file keep
it. -/
theorem everyFile_step (hs : EveryFile P s) {a : RuntimeStep}
    (hnew : ∀ (e : NewEnrollment) spec, P (e.file spec))
    (hnode : ∀ (f g : EnrollmentFile) env more, P f →
      f.runNode (specs f.row.journeyId) env = .ok (g, more) → P g.clearErrors)
    (hact : ∀ id (act : FileAct) running (f g : EnrollmentFile), a = .act id act running →
      s.files id = some f → P f → act.apply (specs f.row.journeyId) f = some g → P g)
    (hevent : ∀ (f : EnrollmentFile) event clock, P f → P (f.onEvent event clock))
    (h : (runtimeMachine specs).step s a = some t) : EveryFile P t := by
  change RuntimeState.step specs s a = some t at h
  cases a with
  | enroll e => exact hs.insert (hnew e) h
  | node id env child running =>
    simp only [RuntimeState.step, RuntimeState.runNode] at h
    obtain ⟨f, hf, h⟩ := Option.bind_eq_some_iff.1 h
    split at h
    · cases h
    · rename_i g more hrun
      have hwritten : EveryFile P (s.write id f g.clearErrors running) :=
        hs.write (hnode f g _ more (hs id f hf) hrun)
      split at h
      · cases h
        exact hwritten
      · split at h
        · cases h
        · exact hwritten.insert (hnew _) h
  | act id act running =>
    obtain ⟨f, hf, h⟩ := Option.bind_eq_some_iff.1 h
    obtain ⟨g, hg, rfl⟩ := Option.map_eq_some_iff.1 h
    exact hs.write (hact id act running f g rfl hf (hs id f hf) hg)
  | exited row eventId clock =>
    simp only [RuntimeState.step] at h
    split at h
    · split at h
      · rename_i f parent hf hparent
        cases h
        have hfile : s.files parent = some f := by
          rw [hparent] at hf
          exact hf
        exact EveryFile.write (s := { s with inbox := s.inbox.erase row }) hs
          (hevent f _ _ (hs parent f hfile))
      · cases h
        exact hs
    · cases h
  | giveUp row =>
    simp only [RuntimeState.step] at h
    split at h
    · cases h
      exact hs
    · cases h

end EveryFile

/-- The runtime before its first enrollment. -/
def NoEnrollments (s : RuntimeState) : Prop :=
  s.files = fun _ => none

theorem waitsOk_reaches {specs : Specs} {s : RuntimeState}
    (h : (runtimeMachine specs).Reaches NoEnrollments LateReschedule s) :
    EveryFile (WaitsOk False) s := by
  refine h.invariant (I := EveryFile (WaitsOk False)) (fun s hs id f hf => ?_) ?_
  · rw [hs] at hf
    cases hf
  · intro s t a _ hs hguard hstep
    refine everyFile_step hs (fun e spec => waitsOk_file e spec)
      (fun f g env more hf hrun => waitsOk_clearErrors (waitsOk_runNode hf hrun)) ?_
      (fun f event clock hf => waitsOk_onEvent hf event clock) hstep
    rintro id act running f g rfl hfile hf happly
    exact waitsOk_apply hf (.inr (hguard f hfile)) happly

/-- What an enrollment's state says of its waits: who waits has an open wait; who has a reply's wait
waits; at most one other wait is open; and an enrollment that has ended has no open wait, no node
and no next run. -/
structure WaitLaw (f : EnrollmentFile) : Prop where
  waiting : f.row.state = .waiting → ∃ w ∈ f.waits, w.isOpen = true
  reply : (∃ w ∈ f.waits, w.isOpen = true ∧ w.kind = .conversationClose) → f.row.state = .waiting
  single : (f.waits.filter fun w => w.isOpen && w.kind ≠ .conversationClose).length ≤ 1
  finished : f.row.state.isOpen = false →
    (∀ w ∈ f.waits, w.isOpen = false) ∧ f.row.currentNode = none ∧ f.row.nextRunAt = none

theorem WaitsOk.law (hok : WaitsOk False f) : WaitLaw f := by
  have hmem : ∀ w, w ∈ f.openWaits ↔ w ∈ f.waits ∧ w.isOpen = true := fun w => List.mem_filter
  refine ⟨fun hwaiting => ?_, ?_, ?_, fun hclosed => ?_⟩
  · obtain ⟨w, hw⟩ := List.exists_mem_of_ne_nil _ (hok.waiting hwaiting)
    exact ⟨w, (hmem w).1 hw⟩
  · rintro ⟨w, hw, hopen, -⟩
    have hw' : w ∈ f.openWaits := (hmem w).2 ⟨hw, hopen⟩
    cases hs : f.row.state with
    | waiting => rfl
    | active => simp [hok.active hs] at hw'
    | done | exited | failed => simp [(hok.finished (by rw [hs]; rfl)).1] at hw'
  · have hsingle := hok.single
    rw [EnrollmentFile.stepWaits, EnrollmentFile.openWaits, List.filter_filter] at hsingle
    simpa [Bool.and_comm] using hsingle
  · obtain ⟨hnone, hnode, hnext⟩ := hok.finished hclosed
    refine ⟨fun w hw => ?_, hnode, hnext.resolve_left id⟩
    cases hopen : w.isOpen with
    | false => rfl
    | true =>
      have hw' : w ∈ f.openWaits := (hmem w).2 ⟨hw, hopen⟩
      simp [hnone] at hw'

/-- **The waits of enrollments.** In every state reached by steps whose reschedulings find their
enrollment open, every file is as the law has it. -/
theorem enrollment_waits {specs : Specs} {s : RuntimeState}
    (h : (runtimeMachine specs).Reaches NoEnrollments LateReschedule s) {id : String}
    {f : EnrollmentFile} (hf : s.files id = some f) : WaitLaw f :=
  (waitsOk_reaches h id f hf).law

/-- A journey that waits for a day and ends. -/
def waitingSpec : JourneySpec where
  entry := { trigger := .manual }
  goal := some { event := "order", windowDays := 7 }
  start := "rest"
  nodes := [.wait { id := "rest", duration := some "P1D" }]

/-- A contact put into it. -/
def sampleEntry : NewEnrollment where
  id := "e1"
  journeyId := "j1"
  version := 1
  contactId := some "1"
  subjectKey := "c:1"
  now := 0

/-- Its enrollment and its first node: it waits. -/
def waitingRun : List RuntimeStep :=
  [.enroll sampleEntry, .node "e1" { now := 0, clock := 0 } none true]

/-- The state after a few steps of the sample. -/
def sampleState (steps : List RuntimeStep) : RuntimeState :=
  ((runtimeMachine fun _ _ => some waitingSpec).run {} steps).getD {}

theorem enrollment_waits_sample :
    ∃ f, (sampleState waitingRun).files "e1" = some f ∧ f.row.state = .waiting ∧ WaitLaw f := by
  have hreaches : (runtimeMachine fun _ _ => some waitingSpec).Reaches NoEnrollments
      LateReschedule (sampleState waitingRun) := by
    have hrun : (runtimeMachine fun _ _ => some waitingSpec).run {} waitingRun =
        some (sampleState waitingRun) := rfl
    have hstart : NoEnrollments {} := rfl
    refine Machine.reaches_of_run hstart (fun a ha _ => ?_) hrun
    rcases List.mem_pair.1 ha with rfl | rfl <;> trivial
  obtain ⟨f, hf, hwaiting⟩ : ∃ f, (sampleState waitingRun).files "e1" = some f ∧
      f.row.state = .waiting := ⟨_, rfl, rfl⟩
  exact ⟨f, hf, hwaiting, enrollment_waits hreaches hf⟩

/-- The enrollment is ejected while its run throws, and then put off. -/
def lateRun : List RuntimeStep :=
  [.enroll sampleEntry, .act "e1" (.finish "ejected" 0) true, .act "e1" (.reschedule 0) true]

/-- **A late rescheduling.** A run throws; before the worker catches the error, the enrollment is
ejected; the worker then gives the ended enrollment a next run. -/
theorem late_reschedule_breaks_law :
    ¬ ∀ (specs : Specs) (s : RuntimeState), (runtimeMachine specs).Reachable NoEnrollments s →
      ∀ id f, s.files id = some f → WaitLaw f := by
  intro h
  have hrun : (runtimeMachine fun _ _ => some waitingSpec).run {} lateRun =
      some (sampleState lateRun) := rfl
  have hstart : NoEnrollments {} := rfl
  have hlaw := h _ _ (Machine.reachable_of_run hstart hrun) "e1" _ rfl
  have hnext := (hlaw.finished rfl).2.2
  cases hnext

end Munin
