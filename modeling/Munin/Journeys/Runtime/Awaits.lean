import Munin.Journeys.Runtime.Waits

/-!
# Enrollments that await a sub-journey

A step that puts its subject into another journey can wait until that enrollment, its child, ends.
The end is told by an event, which names the parent that the child's context has.

* **`Told`, `NoNewAwait`** — what a step on one file leaves of this: the parent stays, an end is
  told, and no new wait for a child begins.
* **`told_runNode`** — the one step that begins such a wait enrolls the child.
* **`RuntimeState.Hears`** — the invariant of a parent and its child: the child is open, or the
  inbox has the row that tells of its end.
* **`child_end_wakes_parent`** — in every state reached.
-/

namespace Munin

open Foundations

/-! ### Parents and children -/

namespace EnrollmentFile

/-- The enrollment whose step put this one into its journey. -/
def parent (f : EnrollmentFile) : Option String :=
  (f.row.context.object "parent").bind (·.text "enrollmentId")

/-- The enrollment is at this `sub_journey` node. -/
def AtSubJourney (specs : Nat → Option JourneySpec) (f : EnrollmentFile) (node : SubJourneyNode) :
    Prop :=
  ∃ spec current, specs f.row.version = some spec ∧ f.row.currentNode = some current ∧
    spec.node current = some (.subJourney node)

/-- The waits of the `sub_journey` step that the enrollment is at. -/
def SubJourneyWait (specs : Nat → Option JourneySpec) (f : EnrollmentFile) (w : JourneyWait) :
    Prop :=
  (∃ node, f.AtSubJourney specs node) ∧ w ∈ f.stepWaits

end EnrollmentFile

/-- The wait is for the end of this enrollment. -/
def JourneyWait.AwaitsEnd (w : JourneyWait) (child : String) : Prop :=
  w.eventKey = some "journey.exited" ∧ w.payload = [("enrollmentId", .str child)]

/-- What a step on a file leaves of what an enrollment's parent knows of it: the parent stays while
the enrollment is open, and its end is told. -/
structure Told (f g : EnrollmentFile) : Prop where
  id : g.row.id = f.row.id
  journey : g.row.journeyId = f.row.journeyId
  parent : g.row.state.isOpen = true → f.row.state.isOpen = true ∧ g.parent = f.parent
  exits : ∃ more, g.exits = f.exits ++ more ∧
    (f.row.state.isOpen = true → g.row.state.isOpen = false →
      ∃ row ∈ more, row.enrollmentId = f.row.id ∧ row.parentEnrollmentId = f.parent)

/-- A step that also begins no wait for a child. -/
structure NoNewAwait (specs : Nat → Option JourneySpec) (f g : EnrollmentFile) : Prop
    extends Told f g where
  waits : ∀ w, g.SubJourneyWait specs w → f.SubJourneyWait specs w

/-- Where an enrollment stands. -/
def Enrollment.place (e : Enrollment) : String × String × Nat × Option NodeId × EnrollmentState :=
  (e.id, e.journeyId, e.version, e.currentNode, e.state)

section NoNewAwait

variable {late : Prop} {specs : Nat → Option JourneySpec} {f g h : EnrollmentFile}

/-- A write to an enrollment that is open before and after it, or neither. -/
theorem told_of_same (hid : g.row.id = f.row.id) (hjourney : g.row.journeyId = f.row.journeyId)
    (hopen : g.row.state.isOpen = f.row.state.isOpen) (hparent : g.parent = f.parent)
    (hexits : g.exits = f.exits) : Told f g where
  id := hid
  journey := hjourney
  parent h := ⟨hopen ▸ h, hparent⟩
  exits := by
    refine ⟨[], by rw [hexits, List.append_nil], fun hf hg => ?_⟩
    rw [hopen, hf] at hg
    cases hg

theorem Told.trans (hfg : Told f g) (hgh : Told g h) : Told f h where
  id := hgh.id.trans hfg.id
  journey := hgh.journey.trans hfg.journey
  parent hopen := by
    obtain ⟨hg, hparent⟩ := hgh.parent hopen
    obtain ⟨hf, hparent'⟩ := hfg.parent hg
    exact ⟨hf, hparent.trans hparent'⟩
  exits := by
    obtain ⟨more, hmore, htold⟩ := hfg.exits
    obtain ⟨more', hmore', htold'⟩ := hgh.exits
    refine ⟨more ++ more', by rw [hmore', hmore, List.append_assoc], fun hf hh => ?_⟩
    -- The end is told by the step that brings it.
    cases hg : g.row.state.isOpen with
    | true =>
      obtain ⟨row, hrow, hid, hparent⟩ := htold' hg hh
      refine ⟨row, List.mem_append_right _ hrow, hid.trans hfg.id, ?_⟩
      rw [hparent, (hfg.parent hg).2]
    | false =>
      obtain ⟨row, hrow, hid, hparent⟩ := htold hf hg
      exact ⟨row, List.mem_append_left _ hrow, hid, hparent⟩

theorem NoNewAwait.refl (f : EnrollmentFile) : NoNewAwait specs f f where
  toTold := told_of_same rfl rfl rfl rfl rfl
  waits _ hw := hw

theorem NoNewAwait.trans (hfg : NoNewAwait specs f g) (hgh : NoNewAwait specs g h) :
    NoNewAwait specs f h where
  toTold := hfg.toTold.trans hgh.toTold
  waits w hw := hfg.waits w (hgh.waits w hw)

variable {w : JourneyWait} {context : Record} {node : JourneyNode} {id : Nat} {clock : Instant}
  {specs' : Nat → Option JourneySpec} {plan : EnrollmentFile.PlannedMove} {env : StepEnv}

/-- The open waits of a step are open. -/
theorem openWaits_of_stepWaits (hw : w ∈ f.stepWaits) : w ∈ f.openWaits :=
  List.mem_of_mem_filter hw

/-- A file without open waits awaits nothing. -/
theorem not_subJourneyWait (hnone : f.openWaits = []) (w : JourneyWait) :
    ¬ f.SubJourneyWait specs w := by
  intro hw
  have hmem := openWaits_of_stepWaits hw.2
  simp [hnone] at hmem

/-- A write that leaves the enrollment where it stands, and opens no wait. -/
theorem noNewAwait_frame (hplace : g.row.place = f.row.place) (hparent : g.parent = f.parent)
    (hexits : g.exits = f.exits) (hwaits : ∀ w ∈ g.openWaits, w ∈ f.openWaits) :
    NoNewAwait specs f g := by
  obtain ⟨hid, hjourney, hversion, hnode, hstate⟩ : g.row.id = f.row.id ∧
      g.row.journeyId = f.row.journeyId ∧ g.row.version = f.row.version ∧
      g.row.currentNode = f.row.currentNode ∧ g.row.state = f.row.state := by
    simpa [Enrollment.place] using hplace
  refine ⟨told_of_same hid hjourney (by rw [hstate]) hparent hexits, ?_⟩
  rintro w ⟨⟨node, hat⟩, hw⟩
  obtain ⟨hopen, hkind⟩ := List.mem_filter.1 hw
  refine ⟨⟨node, ?_⟩, List.mem_filter.2 ⟨hwaits w hopen, hkind⟩⟩
  unfold EnrollmentFile.AtSubJourney at hat ⊢
  rwa [hversion, hnode] at hat

theorem Kept.noNewAwait (hk : Kept f g) : NoNewAwait specs f g := by
  obtain ⟨thread, goal, hrow⟩ := hk.row
  have hopen : g.openWaits = f.openWaits := by
    rw [EnrollmentFile.openWaits, EnrollmentFile.openWaits, hk.waits]
  refine noNewAwait_frame ?_ ?_ hk.exits fun w hw => hopen ▸ hw
  · rw [hrow]
    rfl
  · rw [EnrollmentFile.parent, hrow]
    rfl

/-! ### The context keeps the parent -/

/-- A field that is not among those spread over a record. -/
theorem lookup_spread_of_ne (r : Record) {s : Record} {key : String}
    (h : ∀ field ∈ s, key ≠ field.1) : (r.spread s).lookup key = r.lookup key := by
  unfold Record.spread
  induction s generalizing r with
  | nil => rfl
  | cons field fields ih =>
    rw [List.foldl_cons, ih _ fun x hx => h x (List.mem_cons_of_mem _ hx),
      lookup_setField_of_ne _ _ (h field List.mem_cons_self)]

theorem object_setField_of_ne (r : Record) {key other : String} (value : Json) (h : other ≠ key) :
    Record.object (setField r key value) other = r.object other := by
  rw [Record.object, Record.object, lookup_setField_of_ne _ _ h]

/-- The context that a step spreads over an enrollment's leaves its parent alone. -/
def KeepsParent (context : Record) : Prop :=
  ∀ field ∈ context, "parent" ≠ field.1

theorem keepsParent_nil : KeepsParent [] := by
  intro field hfield
  cases hfield

theorem keepsParent_event (event : RuntimeEvent) : KeepsParent event.context := by
  intro field hfield
  rw [RuntimeEvent.context, List.mem_singleton] at hfield
  have hne : ("parent" : String) ≠ "lastEvent" := by decide
  rwa [hfield]

theorem keepsParent_cause (cause : Option RuntimeEvent) :
    KeepsParent ((cause.map (·.context)).getD []) := by
  cases cause with
  | none => exact keepsParent_nil
  | some event => exact keepsParent_event event

theorem parent_spread (f : EnrollmentFile) (h : KeepsParent context)
    (p : Enrollment → Enrollment) (hp : (p f.row).context = f.row.context.spread context) :
    (f.updateRow p).parent = f.parent := by
  have hlookup : (f.row.context.spread context).object "parent" =
      f.row.context.object "parent" := by
    rw [Record.object, Record.object, lookup_spread_of_ne _ h]
  have hcontext : (f.updateRow p).row.context = f.row.context.spread context := hp
  rw [EnrollmentFile.parent, EnrollmentFile.parent, hcontext, hlookup]

variable {input : Submission} {fromSpec toSpec : JourneySpec}

/-- What an agent submits leaves the parent alone. -/
theorem submission_parent {seen : StepRun} {e : Enrollment} {output : Record}
    (h : EnrollmentFile.submission seen node e input = some (output, context)) :
    context.object "parent" = e.context.object "parent" := by
  have henriched : ("parent" : String) ≠ "enriched" := by decide
  cases input with
  | decision edge decision =>
    cases node with
    | agent n =>
      simp only [EnrollmentFile.submission, Option.ite_none_right_eq_some] at h
      rw [← (Prod.mk.inj (Option.some.inj h.2)).2]
    | _ => cases h
  | draft subject body draft =>
    cases node with
    | message n =>
      simp only [EnrollmentFile.submission, Option.ite_none_right_eq_some] at h
      rw [← (Prod.mk.inj (Option.some.inj h.2)).2]
    | _ => cases h
  | fields values filledBy =>
    cases node with
    | agent n =>
      simp only [EnrollmentFile.submission, Option.ite_none_right_eq_some] at h
      rw [← (Prod.mk.inj (Option.some.inj h.2)).2, object_setField_of_ne _ _ henriched]
    | _ => cases h

/-! ### Ends and waits -/

/-- What ended the enrollment: a step that leaves it without open waits. -/
theorem noNewAwait_of_no_waits (htold : Told f g) (hnone : g.openWaits = []) :
    NoNewAwait specs f g where
  toTold := htold
  waits w hw := absurd hw (not_subJourneyWait hnone w)

theorem noNewAwait_finish (f : EnrollmentFile) (reason : String) (clock : Instant) :
    NoNewAwait specs f (f.finish reason clock) := by
  unfold EnrollmentFile.finish
  split
  · have hclosed : (if reason ∈ COMPLETED_REASONS then EnrollmentState.done
        else .exited).isOpen = false := by
      split <;> rfl
    refine noNewAwait_of_no_waits ⟨rfl, rfl, fun hopen => ?_, ⟨[_], rfl, fun _ _ => ?_⟩⟩
      (openWaits_closeOpenSteps _ ("the journey run ended (" ++ reason ++ ")") clock)
    · exact absurd (hclosed.symm.trans hopen) Bool.false_ne_true
    · exact ⟨_, List.mem_singleton_self _, rfl, rfl⟩
  · exact .refl f

/-- The waits with one id, resolved. -/
def EnrollmentFile.closeWait (f : EnrollmentFile) (id : Nat) (resolution : String)
    (clock : Instant) : EnrollmentFile :=
  f.updateWaits (fun w => w.id = id && w.isOpen)
    fun w => { w with resolvedAt := clock, resolution }

/-- **What resolving a wait does**: nothing, if it is not open; else it is resolved, and the row of
an enrollment that waits takes the context and is perhaps active again. -/
theorem resolveWait_cases (f : EnrollmentFile) (id : Nat) (resolution : String) (context : Record)
    (clock : Instant) :
    ((∀ w ∈ f.openWaits, w.id ≠ id) ∧ f.resolveWait id resolution context clock = f) ∨
    (∃ w ∈ f.openWaits, w.id = id) ∧
      (f.resolveWait id resolution context clock = f.closeWait id resolution clock ∨
        (f.row.state = .waiting ∧ ∃ p : Enrollment → Enrollment,
          f.resolveWait id resolution context clock =
            (f.closeWait id resolution clock).updateRow p ∧
          ((p = fun e => { e with context := e.context.spread context }) ∨
            p = fun e => { e with
              context := e.context.spread context, state := .active, nextRunAt := clock }))) := by
  unfold EnrollmentFile.resolveWait
  cases hfind : f.openWaits.find? (·.id = id) with
  | none =>
    refine .inl ⟨fun w hw hid => ?_, rfl⟩
    have hnot := List.find?_eq_none.1 hfind w hw
    simp [hid] at hnot
  | some wait =>
    have hmem : wait ∈ f.openWaits := List.mem_of_find?_eq_some hfind
    have hid : wait.id = id := by simpa using List.find?_some hfind
    refine .inr ⟨⟨wait, hmem, hid⟩, ?_⟩
    dsimp only
    split
    · exact .inl rfl
    · rename_i hwaiting
      have hstate : f.row.state = .waiting := not_not.1 hwaiting
      refine .inr ⟨hstate, ?_⟩
      split
      · exact ⟨_, rfl, .inl rfl⟩
      · exact ⟨_, rfl, .inr rfl⟩

theorem mem_openWaits_closeWait {resolution : String}
    (hw : w ∈ (f.closeWait id resolution clock).openWaits) :
    w ∈ f.openWaits ∧ w.id ≠ id := by
  rw [EnrollmentFile.closeWait, openWaits_updateWaits _ _ _ fun _ _ => rfl] at hw
  obtain ⟨hmem, hne⟩ := List.mem_filter.1 hw
  have hopen : w.isOpen = true := (List.mem_filter.1 hmem).2
  refine ⟨hmem, fun heq => ?_⟩
  simp [heq, hopen] at hne

/-- The wait that is resolved is no longer open. -/
theorem mem_openWaits_resolveWait {resolution : String}
    (hw : w ∈ (f.resolveWait id resolution context clock).openWaits) :
    w ∈ f.openWaits ∧ w.id ≠ id := by
  rcases resolveWait_cases f id resolution context clock with
    ⟨hnone, heq⟩ | ⟨-, heq | ⟨-, p, heq, -⟩⟩
  · rw [heq] at hw
    exact ⟨hw, hnone w hw⟩
  · rw [heq] at hw
    exact mem_openWaits_closeWait hw
  · rw [heq] at hw
    exact mem_openWaits_closeWait hw

theorem isOpen_resolveWait (f : EnrollmentFile) (id : Nat) (resolution : String)
    (context : Record) (clock : Instant) :
    (f.resolveWait id resolution context clock).row.state.isOpen = f.row.state.isOpen := by
  rcases resolveWait_cases f id resolution context clock with
    ⟨-, heq⟩ | ⟨-, heq | ⟨hwaiting, p, heq, rfl | rfl⟩⟩
  · rw [heq]
  · rw [heq]
    rfl
  · rw [heq]
    rfl
  · rw [heq, hwaiting]
    rfl

theorem noNewAwait_resolveWait (f : EnrollmentFile) (id : Nat) (resolution : String)
    (hcontext : KeepsParent context) (clock : Instant) :
    NoNewAwait specs f (f.resolveWait id resolution context clock) := by
  have hwaits : ∀ w ∈ (f.resolveWait id resolution context clock).openWaits, w ∈ f.openWaits :=
    fun w hw => (mem_openWaits_resolveWait hw).1
  rcases resolveWait_cases f id resolution context clock with
    ⟨-, heq⟩ | ⟨-, heq | ⟨hwaiting, p, heq, rfl | rfl⟩⟩
  · rw [heq]
    exact .refl f
  · rw [heq] at hwaits ⊢
    exact noNewAwait_frame rfl rfl rfl hwaits
  · rw [heq] at hwaits ⊢
    exact noNewAwait_frame rfl (parent_spread (f.closeWait id resolution clock) hcontext _ rfl) rfl
      hwaits
  · rw [heq] at hwaits ⊢
    have hparent := parent_spread (f.closeWait id resolution clock) hcontext
      (fun e => { e with
        context := e.context.spread context, state := .active, nextRunAt := clock }) rfl
    refine ⟨told_of_same rfl rfl (by rw [hwaiting]; rfl) hparent rfl, ?_⟩
    rintro w ⟨⟨node, hat⟩, hw⟩
    obtain ⟨hopen, hkind⟩ := List.mem_filter.1 hw
    exact ⟨⟨node, hat⟩, List.mem_filter.2 ⟨hwaits w hopen, hkind⟩⟩

/-- **The rule for `onEvent`**: what resolving one of the waits keeps, the event keeps. -/
theorem onEvent_rule {P : EnrollmentFile → Prop} (hf : P f) {event : RuntimeEvent}
    (hstep : ∀ g (w : JourneyWait), P g → P (g.resolveWait w.id "event" event.context clock)) :
    P (f.onEvent event clock) := by
  unfold EnrollmentFile.onEvent
  dsimp only
  generalize f.openWaits.filter _ = waits
  induction waits generalizing f with
  | nil => exact hf
  | cons w ws ih => exact ih (hstep f w hf)

theorem noNewAwait_onEvent (f : EnrollmentFile) (event : RuntimeEvent) (clock : Instant) :
    NoNewAwait specs f (f.onEvent event clock) :=
  onEvent_rule (P := NoNewAwait specs f) (.refl f) fun g w hg =>
    hg.trans (noNewAwait_resolveWait g w.id "event" (keepsParent_event event) clock)

/-! ### The steps on one file -/

theorem noNewAwait_recordFailed {message : String} (h : f.recordFailed specs' message clock = .ok g)
    : NoNewAwait specs f g := by
  rcases EnrollmentFile.recordFailed_eq_ok h with rfl | ⟨_, _, ⟨_, rfl⟩ | ⟨-, _, rfl⟩⟩
  · exact .refl _
  · exact noNewAwait_frame rfl rfl rfl fun _ hw => hw
  · exact noNewAwait_frame rfl rfl rfl fun _ hw => hw

theorem noNewAwait_recordStepError {message : String}
    {now : Instant} (h : f.recordStepError specs' message now clock = .ok g) :
    NoNewAwait specs f g := by
  rcases EnrollmentFile.recordStepError_eq_ok h with rfl | ⟨-, k, hk, hcase⟩
  · exact .refl _
  have hcounted : NoNewAwait specs f k := hk ▸ noNewAwait_frame rfl rfl rfl fun _ hw => hw
  rcases hcase with ⟨_, rfl⟩ | ⟨l, hfailed, rfl⟩
  · exact hcounted.trans (noNewAwait_frame rfl rfl rfl fun _ hw => hw)
  · exact (hcounted.trans (noNewAwait_recordFailed hfailed)).trans (noNewAwait_finish _ _ _)

theorem noNewAwait_handleReply {reply : Reply}
    (h : f.handleReply specs' reply clock = some g) : NoNewAwait specs f g := by
  have hreply : ∀ (e : Enrollment) value,
      Record.object (setField e.context "lastReply" value) "parent" =
        e.context.object "parent" :=
    fun e value => object_setField_of_ne _ _ (by decide)
  rcases handleReply_eq_some h with
    rfl | ⟨hopen, _, _, _, -, -, ⟨_, _, -, -, -, rfl⟩ | ⟨wait, hkind, rfl⟩⟩
  · exact .refl _
  · refine noNewAwait_of_no_waits (told_of_same rfl rfl hopen.symm ?_ rfl)
      (openWaits_closeOpenSteps f "the contact replied" clock)
    exact congrArg (·.bind (·.text "enrollmentId")) (hreply f.row _)
  · refine ⟨told_of_same rfl rfl hopen.symm ?_ rfl, ?_⟩
    · exact congrArg (·.bind (·.text "enrollmentId")) (hreply f.row _)
    · -- The wait of a reply is none of a step.
      rintro w ⟨⟨node, hat⟩, hw⟩
      refine ⟨⟨node, hat⟩, ?_⟩
      unfold EnrollmentFile.stepWaits at hw ⊢
      rw [openWaits_updateRow, openWaits_openWait, List.filter_append,
        List.filter_cons_of_neg (by simp [EnrollmentFile.newWait, hkind]), List.filter_nil,
        List.append_nil] at hw
      exact hw

theorem noNewAwait_submit {seen : StepRun}
    (h : f.submit specs' seen input clock = some g) : NoNewAwait specs f g := by
  obtain ⟨_, _, _, context, hsubmitted⟩ := submit_eq_some h
  have hparent : (f.updateRow fun e => { e with context }).parent = f.parent :=
    congrArg (·.bind (·.text "enrollmentId")) (submission_parent hsubmitted.checked)
  rw [hsubmitted.file]
  refine NoNewAwait.trans ?_ (noNewAwait_resolveWait _ _ _ keepsParent_nil _)
  exact noNewAwait_frame rfl hparent rfl fun _ hw => hw

theorem noNewAwait_decideApproval {approve : Bool}
    (h : f.decideApproval id approve clock = some g) : NoNewAwait specs f g := by
  unfold EnrollmentFile.decideApproval at h
  obtain ⟨approval, -, rfl⟩ := Option.map_eq_some_iff.1 h
  have happrovals : ∀ p k, NoNewAwait specs f (f.updateApprovals p k) :=
    fun p k => noNewAwait_frame rfl rfl rfl fun _ hw => hw
  dsimp only
  split
  · exact happrovals _ _
  · exact (happrovals _ _).trans (noNewAwait_resolveWait _ _ _ keepsParent_nil _)

/-- Only `sub_journey` nodes have their type. -/
theorem type_subJourney : node.type = .subJourney ↔ ∃ n, node = .subJourney n := by
  cases node <;> simp [JourneyNode.type]

/-- A run that goes on at the same step does so in a node of the same type. -/
theorem planMove_eq_some
    {nodeMap : Option (List (NodeId × NodeId))} {seen : Enrollment} {held : Bool}
    (h : EnrollmentFile.planMove fromSpec toSpec nodeMap seen held = some plan) :
    plan.version = seen.version ∧ (plan.resumes = true →
      (fromSpec.node plan.currentNode).map (·.type) =
        (toSpec.node plan.currentNode).map (·.type)) := by
  obtain ⟨from', -, h⟩ := Option.bind_eq_some_iff.1 h
  obtain ⟨to', -, h⟩ := Option.bind_eq_some_iff.1 h
  obtain ⟨toNode, hto, h⟩ := Option.bind_eq_some_iff.1 h
  dsimp only at h
  split at h
  · cases h
  · cases h
    refine ⟨rfl, fun hresumes => ?_⟩
    obtain ⟨rfl, htype⟩ := of_decide_eq_true hresumes
    rw [htype, hto]
    rfl

theorem noNewAwait_move
    {toVersion : Nat} (now : Instant) (hfrom : specs plan.version = some fromSpec)
    (hto : specs toVersion = some toSpec)
    (htype : plan.resumes = true → (fromSpec.node plan.currentNode).map (·.type) =
      (toSpec.node plan.currentNode).map (·.type)) :
    NoNewAwait specs f (f.move plan toVersion now) := by
  have hparent : ∀ value, Record.object (setField f.row.context "movedFrom" value) "parent" =
      f.row.context.object "parent" := fun value => object_setField_of_ne _ _ (by decide)
  rcases move_cases f plan toVersion now with
    hsame | ⟨hversion, hcurrent, hopen, _, ⟨hresumes, hmove⟩ | hmove⟩
  · rw [hsame]
    exact .refl f
  · rw [hmove]
    refine ⟨told_of_same rfl rfl rfl ?_ rfl, ?_⟩
    · exact congrArg (·.bind (·.text "enrollmentId")) (hparent _)
    · rintro w ⟨⟨node, spec, current, hspec, hcurrent', hnode⟩, hw⟩
      obtain rfl : toSpec = spec := Option.some.inj (hto.symm.trans hspec)
      obtain rfl : plan.currentNode = current :=
        Option.some.inj (hcurrent.symm.trans hcurrent')
      have hsame := htype hresumes
      rw [hnode] at hsame
      obtain ⟨old, hold, hsub⟩ := Option.map_eq_some_iff.1 hsame
      obtain ⟨n, rfl⟩ := type_subJourney.1 hsub
      exact ⟨⟨n, fromSpec, plan.currentNode, hversion ▸ hfrom, hcurrent, hold⟩, hw⟩
  · rw [hmove]
    refine noNewAwait_of_no_waits (told_of_same rfl rfl hopen.symm ?_ rfl)
      (openWaits_cancelWaits f now)
    exact congrArg (·.bind (·.text "enrollmentId")) (hparent _)

theorem noNewAwait_purgeTraces (f : EnrollmentFile) : NoNewAwait specs f f.purgeTraces := by
  rcases purgeTraces_cases f with hsame | ⟨hclosed, hpurged⟩
  · rw [hsame]
    exact .refl f
  · rw [hpurged]
    refine noNewAwait_of_no_waits ⟨rfl, rfl, fun hopen => ?_, [], ?_, fun hopen => ?_⟩ rfl
    · exact absurd (hclosed.symm.trans hopen) Bool.false_ne_true
    · exact (List.append_nil _).symm
    · exact absurd (hclosed.symm.trans hopen) Bool.false_ne_true

/-- **Every step on a file** lets its parent know of its end, and begins no wait for a child. -/
theorem noNewAwait_apply {a : FileAct} (h : a.apply specs f = some g) : NoNewAwait specs f g := by
  cases a with
  | recordStepError message now clock =>
    exact noNewAwait_recordStepError (recordStepError_of_apply h)
  | reschedule now =>
    cases h
    exact noNewAwait_frame rfl rfl rfl fun _ hw => hw
  | resolveWait id resolution cause clock =>
    cases h
    exact noNewAwait_resolveWait _ _ _ (keepsParent_cause cause) _
  | event e clock =>
    cases h
    exact noNewAwait_onEvent f e clock
  | reply r clock => exact noNewAwait_handleReply h
  | submit seen input clock => exact noNewAwait_submit h
  | decideApproval id approve clock => exact noNewAwait_decideApproval h
  | rememberThread conversationId =>
    cases h
    exact (kept_rememberThread f conversationId).noNewAwait
  | markGoal clock =>
    cases h
    exact (kept_markGoal f clock).noNewAwait
  | finish reason clock =>
    cases h
    exact noNewAwait_finish f reason clock
  | move toVersion nodeMap seen held now =>
    obtain ⟨fromSpec, hfrom, h⟩ := Option.bind_eq_some_iff.1 h
    obtain ⟨toSpec, hto, rfl⟩ := Option.map_eq_some_iff.1 h
    split
    · exact .refl f
    · rename_i plan hplan
      obtain ⟨hversion, htype⟩ := planMove_eq_some hplan
      exact noNewAwait_move now (hversion ▸ hfrom) hto htype
  | resumeNode node clock =>
    cases h
    unfold EnrollmentFile.resumeNode
    split
    · exact noNewAwait_frame rfl rfl rfl fun _ hw => hw
    · exact .refl f
  | purgeTraces =>
    cases h
    exact noNewAwait_purgeTraces f

/-! ### The step that begins a wait for a child -/

/-- The one wait of `executeSubJourney`: for the enrollment that it puts into the other journey. -/
theorem executeSubJourney_wait {step : StepContext} {node : SubJourneyNode}
    {wait : WaitSpec} {output : Option Record} {reason : Option String}
    (h : executeSubJourney env step node f = (g, .wait wait output reason)) :
    node.await = true ∧ ∃ child, env.enroll = .enrolled child ∧
      wait.eventKey = some "journey.exited" ∧ wait.payload = [("enrollmentId", .str child)] ∧
      g.children = f.children ++ [child] := by
  unfold executeSubJourney at h
  dsimp only at h
  split at h
  · split at h
    · split at h <;> cases h
    · cases h
  · split at h
    · cases h
    · split at h
      · cases h
      · split at h
        · cases h
        · rename_i child henroll
          split at h
          · cases h
          · rename_i hawait
            cases h
            exact ⟨by simpa using hawait, child, henroll, rfl, rfl, rfl⟩

/-- Leaving a node tells of the end, if it is one, and opens no wait. -/
theorem told_leave (hnone : f.openWaits = []) (env : StepEnv) (spec : JourneySpec)
    (outcome : Outcome) :
    Told f (f.leave env spec outcome).1 ∧ (f.leave env spec outcome).1.openWaits = [] := by
  have hend : ∀ reason, Told f (f.finish reason env.clock) ∧
      (f.finish reason env.clock).openWaits = [] := by
    intro reason
    refine ⟨?_, ?_⟩
    · have hkeeps : NoNewAwait (fun _ => none) f (f.finish reason env.clock) := noNewAwait_finish ..
      exact hkeeps.toTold
    · unfold EnrollmentFile.finish
      split
      · exact openWaits_closeOpenSteps _ ("the journey run ended (" ++ reason ++ ")") env.clock
      · exact hnone
  have hsame : Told f f := told_of_same rfl rfl rfl rfl rfl
  unfold EnrollmentFile.leave
  split
  · exact hend _
  · split
    · exact hend _
    · exact ⟨told_of_same rfl rfl rfl rfl rfl, hnone⟩
  · exact ⟨hsame, hnone⟩
  · exact ⟨hsame, hnone⟩

/-- What settling an outcome does: no wait is open after it, or the one that the outcome asks
for. -/
theorem told_settle {k : EnrollmentFile} (hactive : k.row.state = .active)
    (hnone : k.openWaits = []) (env : StepEnv) (spec : JourneySpec) (runId attempt : Nat)
    (outcome : Outcome) :
    Told k (k.settle env spec runId attempt outcome).1 ∧
      ∀ w ∈ (k.settle env spec runId attempt outcome).1.openWaits,
        ∃ wait output reason, outcome = .wait wait output reason ∧
          w.eventKey = wait.eventKey ∧ w.payload = wait.payload ∧
          (k.settle env spec runId attempt outcome).1.row.version = k.row.version ∧
          (k.settle env spec runId attempt outcome).1.row.currentNode = k.row.currentNode ∧
          (k.settle env spec runId attempt outcome).1.children = k.children := by
  have hopen : k.row.state.isOpen = true := isOpen_iff.2 (.inl hactive)
  have hleave : ∀ (p : StepRun → Bool) (q : StepRun → StepRun) (o : Outcome),
      Told k ((k.updateSteps p q).leave env spec o).1 ∧
        ((k.updateSteps p q).leave env spec o).1.openWaits = [] := by
    intro p q o
    obtain ⟨htold, hleft⟩ := told_leave (f := k.updateSteps p q) hnone env spec o
    have hsame : Told k (k.updateSteps p q) := told_of_same rfl rfl rfl rfl rfl
    exact ⟨hsame.trans htold, hleft⟩
  have hno : ∀ {g : EnrollmentFile} {P : JourneyWait → Prop}, g.openWaits = [] →
      ∀ w ∈ g.openWaits, P w := by
    intro g P hg w hw
    rw [hg] at hw
    cases hw
  unfold EnrollmentFile.settle
  split
  · exact ⟨told_of_same rfl rfl rfl rfl rfl, hno hnone⟩
  · rename_i wait output reason
    refine ⟨told_of_same rfl rfl hopen.symm rfl rfl, fun w hw => ?_⟩
    dsimp only at hw
    rw [openWaits_openWait, EnrollmentFile.updateStepRun, openWaits_updateSteps, hnone,
      List.nil_append, List.mem_singleton] at hw
    subst hw
    exact ⟨wait, output, reason, rfl, rfl, rfl, rfl, rfl, rfl⟩
  · dsimp only
    exact And.imp_right hno (hleave _ _ _)
  · dsimp only
    exact And.imp_right hno (hleave _ _ _)

/-- What the wait that begins at a `sub_journey` node is: the node awaits its child, and this step
enrolled it. -/
structure BeginsAwait (env : StepEnv) (node : SubJourneyNode) (f g : EnrollmentFile)
    (w : JourneyWait) : Prop where
  await : node.await = true
  child : ∃ child, env.enroll = .enrolled child ∧ w.AwaitsEnd child
  grown : g.children ≠ f.children

theorem told_runVisit (hf : WaitsOk late f) (hactive : f.row.state = .active)
    {spec : JourneySpec} {visit : Nat} {more : Bool}
    (h : f.runVisit env spec node visit = .ok (g, more)) :
    Told f g ∧ ∀ w ∈ g.openWaits, g.row.version = f.row.version ∧
      g.row.currentNode = f.row.currentNode ∧
      ∀ n, node = .subJourney n → BeginsAwait env n f g w := by
  have hnone : f.openWaits = [] := hf.active hactive
  rcases EnrollmentFile.runVisit_cases h with
    ⟨-, rfl, -⟩ | ⟨run, -, -, hg⟩ | ⟨k, outcome, hexec, hg⟩
  · refine ⟨told_of_same rfl rfl rfl rfl rfl, fun w hw => ?_⟩
    rw [openWaits_updateRow, hnone] at hw
    cases hw
  · obtain ⟨htold, hleft⟩ := told_leave hnone env spec (storedOutcome node run)
    have hgl : g = (f.leave env spec (storedOutcome node run)).1 := congrArg Prod.fst hg
    rw [hgl]
    refine ⟨htold, fun w hw => ?_⟩
    rw [hleft] at hw
    cases hw
  · obtain ⟨hrow, hwaits⟩ := enterRun_frame f node visit
    obtain ⟨hexits, hchildren⟩ : (f.enterRun node visit).1.exits = f.exits ∧
        (f.enterRun node visit).1.children = f.children := by
      unfold EnrollmentFile.enterRun
      split <;> exact ⟨rfl, rfl⟩
    have hkept := kept_execute hexec
    obtain ⟨thread, goal, hk⟩ := hkept.row
    rw [hrow] at hk
    have hkwaits : k.openWaits = [] := by
      rw [EnrollmentFile.openWaits, hkept.waits, ← EnrollmentFile.openWaits, hwaits, hnone]
    have hfk : Told f k := by
      refine told_of_same ?_ ?_ ?_ ?_ (hkept.exits.trans hexits)
      all_goals first | rw [hk] | rw [EnrollmentFile.parent, hk]; rfl
    have hkactive : k.row.state = .active := by
      rw [hk]
      exact hactive
    obtain ⟨htold, hopened⟩ := told_settle hkactive hkwaits env spec
      (f.enterRun node visit).2.1.id (f.enterRun node visit).2.2.2 outcome
    have hgs : g = (k.settle env spec (f.enterRun node visit).2.1.id
      (f.enterRun node visit).2.2.2 outcome).1 := congrArg Prod.fst hg
    rw [hgs]
    refine ⟨hfk.trans htold, fun w hw => ?_⟩
    obtain ⟨wait, output, reason, rfl, hkey, hpayload, hversion, hnode, hsame⟩ := hopened w hw
    refine ⟨hversion.trans (by rw [hk]), hnode.trans (by rw [hk]), ?_⟩
    rintro n rfl
    have hsub := executeSubJourney_wait (Except.ok.inj hexec)
    obtain ⟨hawait, child, henroll, hkey', hpayload', hgrown⟩ := hsub
    refine ⟨hawait, ⟨child, henroll, hkey.trans hkey', hpayload.trans hpayload'⟩, ?_⟩
    rw [hsame, hgrown, hchildren]
    simp

/-- **A node that runs** lets the parent know of the end, and begins a wait for a child only as it
enrolls the child. -/
theorem told_runNode (hf : WaitsOk late f) {more : Bool} (h : f.runNode specs env = .ok (g, more)) :
    Told f g ∧ ∀ w, g.SubJourneyWait specs w → f.SubJourneyWait specs w ∨
      ∃ node, f.AtSubJourney specs node ∧ BeginsAwait env node f g w := by
  rcases EnrollmentFile.runNode_cases h with ⟨rfl, -⟩ | ⟨hactive, current, spec, hcurrent, hspec,
      ⟨reason, rfl, -⟩ | ⟨node, visit, hnode, -, -, hvisit⟩⟩
  · exact ⟨told_of_same rfl rfl rfl rfl rfl, fun w hw => .inl hw⟩
  · have hkeeps : NoNewAwait specs f (f.finish reason env.clock) := noNewAwait_finish ..
    exact ⟨hkeeps.toTold, fun w hw => .inl (hkeeps.waits w hw)⟩
  · obtain ⟨htold, hopened⟩ := told_runVisit hf hactive hvisit
    refine ⟨htold, ?_⟩
    rintro w ⟨⟨n, spec', current', hspec', hcurrent', hn⟩, hw⟩
    obtain ⟨hversion, hsame, hbegins⟩ := hopened w (openWaits_of_stepWaits hw)
    rw [hversion, hspec, Option.some.injEq] at hspec'
    rw [hsame, hcurrent, Option.some.injEq] at hcurrent'
    subst hspec' hcurrent'
    rw [hnode, Option.some.injEq] at hn
    exact .inr ⟨n, ⟨spec, current, hspec, hcurrent, hn ▸ hnode⟩, hbegins n hn⟩

theorem noNewAwait_clearErrors (f : EnrollmentFile) : NoNewAwait specs f f.clearErrors := by
  unfold EnrollmentFile.clearErrors
  split
  · exact noNewAwait_frame rfl rfl rfl fun _ hw => hw
  · exact .refl f

end NoNewAwait

/-! ### Every parent and child -/

namespace RuntimeState

/-- Some enrollment waits for the end of this one. -/
def Awaited (s : RuntimeState) (child : String) : Prop :=
  ∃ id f w, s.files id = some f ∧ w ∈ f.openWaits ∧ w.AwaitsEnd child

/-- The parent will hear of its child's end: the child is open and knows its parent, or the inbox
has the row that tells of the end. -/
def WillHear (s : RuntimeState) (parent child : String) : Prop :=
  (∃ g, s.files child = some g ∧ g.row.state.isOpen = true ∧ g.parent = some parent) ∨
    ∃ row ∈ s.inbox, row.enrollmentId = child ∧ row.parentEnrollmentId = some parent

/-- The invariant: files are kept by the ids of their rows, and whoever waits at a `sub_journey`
node will hear of the end of a child. -/
structure Hears (specs : Specs) (s : RuntimeState) : Prop where
  id : ∀ id f, s.files id = some f → f.row.id = id
  heard : ∀ id f w, s.files id = some f → f.SubJourneyWait (specs f.row.journeyId) w →
    ∃ child, w.AwaitsEnd child ∧ s.WillHear id child

end RuntimeState

/-- What the steps must meet: while an enrollment is awaited, each of its steps finds some journey
of the organisation live or paused; no awaited child is held out; and no row that tells of an
awaited end is given up. -/
def ParentHears (specs : Specs) (s : RuntimeState) : RuntimeStep → Prop
  | .node id _ child running =>
    (running = true ∨ ¬ s.Awaited id) ∧
      ∀ f node, s.files id = some f → f.AtSubJourney (specs f.row.journeyId) node →
        node.await = true → ∀ e, child = some e → ∀ spec, specs e.journeyId e.version = some spec →
          spec.settings.holdoutPct ≤ stableBucket [e.subjectKey, e.journeyId]
  | .act id _ running => running = true ∨ ¬ s.Awaited id
  | .giveUp row => ¬ s.Awaited row.enrollmentId
  | .enroll _ | .exited .. => True

section Hears

variable {specs : Specs} {s t : RuntimeState}

variable {id parent child : String} {f g : EnrollmentFile} {running : Bool} {w : JourneyWait}
  {e : NewEnrollment} {row : JourneyExited}

/-- A file whose step tells of its end. -/
theorem willHear_write
    (hids : ∀ id f, s.files id = some f → f.row.id = id) (hf : s.files id = some f)
    (htold : Told f g) (hrunning : running = true ∨ ¬ s.Awaited id) (hawaited : s.Awaited child)
    (h : s.WillHear parent child) : (s.write id f g running).WillHear parent child := by
  rcases h with ⟨k, hk, hopen, hparent⟩ | ⟨row, hrow, hid, hparent⟩
  · by_cases heq : child = id
    · subst heq
      obtain rfl : f = k := Option.some.inj (hf.symm.trans hk)
      obtain rfl : running = true := hrunning.resolve_right (not_not.2 hawaited)
      cases hg : g.row.state.isOpen with
      | true => exact .inl ⟨g, s.files_write_self .., hg, (htold.parent hg).2.trans hparent⟩
      | false =>
        obtain ⟨more, hmore, hend⟩ := htold.exits
        obtain ⟨row, hrow, hid, hparent'⟩ := hend hopen hg
        refine .inr ⟨row, ?_, hid.trans (hids child f hf), hparent'.trans hparent⟩
        have hdrop : g.exits.drop f.exits.length = more := by rw [hmore, List.drop_left]
        change row ∈ s.inbox ++ g.exits.drop f.exits.length
        rw [hdrop]
        exact List.mem_append_right _ hrow
    · exact .inl ⟨k, (s.files_write_of_ne heq ..).trans hk, hopen, hparent⟩
  · exact .inr ⟨row, List.mem_append_left _ hrow, hid, hparent⟩

/-- What a step on one file does not begin is heard as before. -/
theorem heard_write (hs : s.Hears specs) {id' : String} {k : EnrollmentFile}
    (hf : s.files id = some f) (htold : Told f g) (hrunning : running = true ∨ ¬ s.Awaited id)
    (hk : (s.write id f g running).files id' = some k)
    (hw : k.SubJourneyWait (specs k.row.journeyId) w)
    (hold : id' = id → f.SubJourneyWait (specs f.row.journeyId) w) :
    ∃ child, w.AwaitsEnd child ∧ (s.write id f g running).WillHear id' child := by
  obtain ⟨k', hk', hw'⟩ : ∃ k', s.files id' = some k' ∧
      k'.SubJourneyWait (specs k'.row.journeyId) w := by
    by_cases heq : id' = id
    · exact ⟨f, heq ▸ hf, hold heq⟩
    · rw [s.files_write_of_ne heq] at hk
      exact ⟨k, hk, hw⟩
  obtain ⟨child, hawaits, hhear⟩ := hs.heard id' k' w hk' hw'
  exact ⟨child, hawaits, willHear_write hs.id hf htold hrunning
    ⟨id', k', w, hk', openWaits_of_stepWaits hw'.2, hawaits⟩ hhear⟩

theorem id_write (hs : s.Hears specs) (hf : s.files id = some f) (hid : g.row.id = f.row.id) :
    ∀ id' k, (s.write id f g running).files id' = some k → k.row.id = id' := by
  intro id' k hk
  by_cases heq : id' = id
  · subst heq
    rw [s.files_write_self] at hk
    rw [← Option.some.inj hk, hid]
    exact hs.id id' f hf
  · rw [s.files_write_of_ne heq] at hk
    exact hs.id id' k hk

/-- A step on one file that begins no wait for a child. -/
theorem RuntimeState.Hears.write (hs : s.Hears specs) (hf : s.files id = some f)
    (hkeeps : NoNewAwait (specs f.row.journeyId) f g)
    (hrunning : running = true ∨ ¬ s.Awaited id) : (s.write id f g running).Hears specs := by
  refine ⟨id_write hs hf hkeeps.id, fun id' k w hk hw => ?_⟩
  refine heard_write hs hf hkeeps.toTold hrunning hk hw fun heq => ?_
  subst heq
  rw [s.files_write_self] at hk
  obtain rfl : g = k := Option.some.inj hk
  rw [hkeeps.journey] at hw
  exact hkeeps.waits w hw

/-- An enrollment that was inserted waits for nothing. -/
theorem not_subJourneyWait_file (e : NewEnrollment) (spec : JourneySpec)
    {specs : Nat → Option JourneySpec} (w : JourneyWait) :
    ¬ (e.file spec).SubJourneyWait specs w :=
  not_subJourneyWait rfl w

/-- What an insertion leaves to hear. -/
theorem willHear_insert (h : s.insert specs e = some t) (hhear : s.WillHear parent child) :
    t.WillHear parent child := by
  obtain ⟨hnone, spec, -, -, hother, hinbox⟩ := s.insert_eq_some h
  rcases hhear with ⟨k, hk, hopen, hparent⟩ | hrow
  · have hne : child ≠ e.id := by
      rintro rfl
      rw [hnone] at hk
      cases hk
    exact .inl ⟨k, (hother child hne).trans hk, hopen, hparent⟩
  · exact .inr (hinbox ▸ hrow)

/-- The files after an insertion. -/
theorem files_of_insert (h : s.insert specs e = some t) (hf : t.files id = some f) :
    s.files id = some f ∨ (id = e.id ∧ ∃ spec, f = e.file spec) := by
  obtain ⟨-, spec, -, hself, hother, -⟩ := s.insert_eq_some h
  by_cases heq : id = e.id
  · subst heq
    rw [hself] at hf
    exact .inr ⟨rfl, spec, (Option.some.inj hf).symm⟩
  · rw [hother id heq] at hf
    exact .inl hf

theorem RuntimeState.Hears.insert (hs : s.Hears specs)
    (h : s.insert specs e = some t) : t.Hears specs := by
  refine ⟨fun id f hf => ?_, fun id f w hf hw => ?_⟩
  · rcases files_of_insert h hf with hold | ⟨rfl, spec, rfl⟩
    · exact hs.id id f hold
    · rfl
  · rcases files_of_insert h hf with hold | ⟨-, spec, rfl⟩
    · obtain ⟨child, hawaits, hhear⟩ := hs.heard id f w hold hw
      exact ⟨child, hawaits, willHear_insert h hhear⟩
    · exact absurd hw (not_subJourneyWait_file e spec w)

/-- A child that was just enrolled, in the context that its parent's step gives it. -/
theorem willHear_child {e : NewEnrollment} {row : Enrollment}
    (h : s.insert specs { e with context := RuntimeState.childContext row } = some t)
    (hheld : ∀ spec, specs e.journeyId e.version = some spec →
      spec.settings.holdoutPct ≤ stableBucket [e.subjectKey, e.journeyId]) :
    t.WillHear row.id e.id := by
  obtain ⟨-, spec, hspec, hself, -⟩ := s.insert_eq_some h
  refine .inl ⟨_, hself, ?_, rfl⟩
  have hnot : ¬ stableBucket [e.subjectKey, e.journeyId] < spec.settings.holdoutPct :=
    Nat.not_lt.2 (hheld spec hspec)
  simp only [NewEnrollment.file, if_neg hnot]
  rfl

/-- A child is enrolled by the step that says so. -/
theorem child_of_answerEnroll {env : StepEnv} {child : Option NewEnrollment}
    (h : (RuntimeState.answerEnroll env child).enroll = .enrolled id) :
    ∃ e, child = some e ∧ e.id = id := by
  cases child with
  | some e => exact ⟨e, rfl, EnrollResult.enrolled.inj h⟩
  | none =>
    unfold RuntimeState.answerEnroll at h
    dsimp only at h
    split at h
    · cases h
    · rename_i hskipped
      rw [hskipped] at h
      cases h

/-- **A node that runs** keeps what is heard; a wait that begins is for a child that is open. -/
theorem hears_runNode (hs : s.Hears specs) (hwaits : EveryFile (WaitsOk True) s)
    {env : StepEnv} {child : Option NewEnrollment}
    (hguard : ParentHears specs s (.node id env child running))
    (h : s.runNode specs id env child running = some t) : t.Hears specs := by
  obtain ⟨hrunning, hheld⟩ := hguard
  unfold RuntimeState.runNode at h
  obtain ⟨f, hf, h⟩ := Option.bind_eq_some_iff.1 h
  split at h
  · cases h
  · rename_i g more hrun
    obtain ⟨htold, hbegun⟩ := told_runNode (hwaits id f hf) hrun
    have hclear : NoNewAwait (specs f.row.journeyId) g g.clearErrors := noNewAwait_clearErrors g
    have htold' : Told f g.clearErrors := htold.trans hclear.toTold
    cases child with
    | none =>
      -- Without a child no wait for one begins.
      cases h
      refine hs.write hf ⟨htold', fun w hw => ?_⟩ hrunning
      rcases hbegun w (hclear.waits w hw) with hold | ⟨node, -, hbegins⟩
      · exact hold
      · obtain ⟨c, henroll, -⟩ := hbegins.child
        obtain ⟨e, he, -⟩ := child_of_answerEnroll henroll
        cases he
    | some e =>
      dsimp only at h
      split at h
      · cases h
      · refine ⟨fun id' k hk => ?_, fun id' k w hk hw => ?_⟩
        · rcases files_of_insert h hk with hold | ⟨rfl, spec, rfl⟩
          · exact id_write hs hf htold'.id id' k hold
          · rfl
        · rcases files_of_insert h hk with hold | ⟨-, spec, rfl⟩
          · by_cases hnew : id' = id → f.SubJourneyWait (specs f.row.journeyId) w
            · obtain ⟨c, hawaits, hhear⟩ := heard_write hs hf htold' hrunning hold hw hnew
              exact ⟨c, hawaits, willHear_insert h hhear⟩
            · obtain ⟨rfl, hnot⟩ := Classical.not_imp.1 hnew
              rw [s.files_write_self] at hold
              obtain rfl : g.clearErrors = k := Option.some.inj hold
              rw [htold'.journey] at hw
              obtain ⟨node, hat, hbegins⟩ := (hbegun w (hclear.waits w hw)).resolve_left hnot
              obtain ⟨c, henroll, hawaits⟩ := hbegins.child
              obtain ⟨e', he', rfl⟩ := child_of_answerEnroll henroll
              cases he'
              have hchild := willHear_child h (hheld f node hf hat hbegins.await e rfl)
              rw [hs.id id' f hf] at hchild
              exact ⟨e.id, hawaits, hchild⟩
          · exact absurd hw (not_subJourneyWait_file _ spec w)

/-- The waits that an event is for are not open after it. -/
theorem openWaits_onEvent {event : RuntimeEvent} {clock : Instant}
    (hw : w ∈ (f.onEvent event clock).openWaits) :
    w ∈ f.openWaits ∧ ∀ v ∈ f.openWaits, v.eventKey = some event.key →
      payloadMatches event.payload v.payload → w.id ≠ v.id := by
  have hfold : ∀ (ws : List JourneyWait) (f : EnrollmentFile),
      w ∈ (ws.foldl (fun f w => f.resolveWait w.id "event" event.context clock) f).openWaits →
        w ∈ f.openWaits ∧ ∀ v ∈ ws, w.id ≠ v.id := by
    intro ws
    induction ws with
    | nil => exact fun f hw => ⟨hw, by simp⟩
    | cons v vs ih =>
      intro f hw
      obtain ⟨hopen, hne⟩ := ih _ hw
      obtain ⟨hopen', hne'⟩ := mem_openWaits_resolveWait hopen
      refine ⟨hopen', fun u hu => ?_⟩
      rcases List.mem_cons.1 hu with rfl | hu
      · exact hne'
      · exact hne u hu
  obtain ⟨hopen, hne⟩ := hfold _ f hw
  refine ⟨hopen, fun v hv hkey hmatch => hne v (List.mem_filter.2 ⟨hv, ?_⟩)⟩
  simp [hkey, hmatch]

/-- The waits after one is resolved. -/
theorem waits_resolveWait (f : EnrollmentFile) (id : Nat) (resolution : String) (context : Record)
    (clock : Instant) :
    ((∀ w ∈ f.openWaits, w.id ≠ id) ∧
      (f.resolveWait id resolution context clock).waits = f.waits) ∨
    (f.resolveWait id resolution context clock).waits =
      (f.closeWait id resolution clock).waits := by
  rcases resolveWait_cases f id resolution context clock with
    ⟨hnone, heq⟩ | ⟨-, heq | ⟨-, p, heq, -⟩⟩
  · exact .inl ⟨hnone, by rw [heq]⟩
  · exact .inr (by rw [heq])
  · exact .inr (by rw [heq]; rfl)

/-- An event has resolved a wait with this id. -/
def EventResolved (f : EnrollmentFile) (id : Nat) : Prop :=
  ∃ w ∈ f.waits, w.id = id ∧ w.resolution = some "event"

/-- A wait that an event has resolved stays so. -/
theorem EventResolved.resolveWait {id : Nat} (h : EventResolved f id)
    (id' : Nat) (context : Record) (clock : Instant) :
    EventResolved (f.resolveWait id' "event" context clock) id := by
  obtain ⟨w, hw, hid, hresolution⟩ := h
  unfold EventResolved
  rcases waits_resolveWait f id' "event" context clock with ⟨-, heq⟩ | heq
  · rw [heq]
    exact ⟨w, hw, hid, hresolution⟩
  · rw [heq]
    refine ⟨_, List.mem_map.2 ⟨w, hw, rfl⟩, ?_⟩
    split
    · exact ⟨hid, rfl⟩
    · exact ⟨hid, hresolution⟩

/-- A wait that is open is resolved with its id, and otherwise stays open. -/
theorem resolveWait_open (hw : w ∈ f.openWaits) (id : Nat) (context : Record) (clock : Instant) :
    (w.id = id ∧ EventResolved (f.resolveWait id "event" context clock) w.id) ∨
      (w.id ≠ id ∧ w ∈ (f.resolveWait id "event" context clock).openWaits) := by
  obtain ⟨hmem, hopen⟩ := List.mem_filter.1 hw
  unfold EventResolved EnrollmentFile.openWaits
  rcases waits_resolveWait f id "event" context clock with ⟨hnone, heq⟩ | heq
  · rw [heq]
    exact .inr ⟨hnone w hw, hw⟩
  · rw [heq]
    by_cases hid : w.id = id
    · refine .inl ⟨hid, _, List.mem_map.2 ⟨w, hmem, rfl⟩, ?_⟩
      rw [if_pos (by simp [hid, hopen])]
      exact ⟨rfl, rfl⟩
    · refine .inr ⟨hid, List.mem_filter.2 ⟨List.mem_map.2 ⟨w, hmem, ?_⟩, hopen⟩⟩
      rw [if_neg (by simp [hid])]

/-- A wait that the event is for is resolved by it. -/
theorem resolved_onEvent {event : RuntimeEvent} {clock : Instant} (hw : w ∈ f.openWaits)
    (hkey : w.eventKey = some event.key) (hmatch : payloadMatches event.payload w.payload) :
    EventResolved (f.onEvent event clock) w.id := by
  have hfold : ∀ (ws : List JourneyWait) (f : EnrollmentFile),
      (w ∈ f.openWaits ∧ w ∈ ws) ∨ EventResolved f w.id →
        EventResolved
          (ws.foldl (fun f w => f.resolveWait w.id "event" event.context clock) f) w.id := by
    intro ws
    induction ws with
    | nil => simp
    | cons v vs ih =>
      intro f h
      refine ih _ ?_
      rcases h with ⟨hw, hmem⟩ | hdone
      · -- The first wait of the list with this id resolves it.
        rcases resolveWait_open hw v.id event.context clock with ⟨-, hdone⟩ | ⟨hid, hopen⟩
        · exact .inr hdone
        · have hne : w ≠ v := fun heq => hid (heq ▸ rfl)
          exact .inl ⟨hopen, (List.mem_cons.1 hmem).resolve_left hne⟩
      · exact .inr (hdone.resolveWait _ _ _)
  exact hfold _ f (.inl ⟨hw, List.mem_filter.2 ⟨hw, by simp [hkey, hmatch]⟩⟩)

/-- The event of an end matches the waits for it. -/
theorem payloadMatches_exitPayload (row : JourneyExited)
    (hw : w.AwaitsEnd child) (hrow : row.enrollmentId = child) :
    payloadMatches (RuntimeState.exitPayload row) w.payload := by
  have hne : ("enrollmentId" : String) ≠ "parentEnrollmentId" := by decide
  have hlookup : (RuntimeState.exitPayload row).lookup "enrollmentId" =
      some (.str row.enrollmentId) := by
    unfold RuntimeState.exitPayload Record.withField
    cases row.parentEnrollmentId with
    | none => rfl
    | some parent =>
      rw [Option.map_some, Option.elim_some, lookup_setField_of_ne _ _ hne]
      rfl
  rw [hw.2, payloadMatches, List.all_cons, List.all_nil, Bool.and_true]
  simp [hlookup, hrow, sameValue]

/-- What is still heard once a row is gone from the inbox. -/
theorem willHear_erase (hhear : s.WillHear parent child)
    (hne : row.enrollmentId = child → row.parentEnrollmentId ≠ some parent) :
    ({ s with inbox := s.inbox.erase row } : RuntimeState).WillHear parent child := by
  rcases hhear with hopen | ⟨row', hrow', hid, hparent⟩
  · exact .inl hopen
  · refine .inr ⟨row', ?_, hid, hparent⟩
    have hrow : row' ≠ row := by
      rintro rfl
      exact hne hid hparent
    exact (List.mem_erase_of_ne hrow).2 hrow'

/-- The event of an end, heard by the parent that it names. -/
theorem hears_event (hs : s.Hears specs) (hf : s.files parent = some f)
    (hparent : row.parentEnrollmentId = some parent) (eventId : String) (clock : Instant) :
    RuntimeState.Hears specs (({ s with inbox := s.inbox.erase row } : RuntimeState).write parent f
      (f.onEvent ⟨"journey.exited", RuntimeState.exitPayload row, eventId⟩ clock) true) := by
  generalize hevent :
    (⟨"journey.exited", RuntimeState.exitPayload row, eventId⟩ : RuntimeEvent) = event
  have hkeeps : NoNewAwait (specs f.row.journeyId) f (f.onEvent event clock) :=
    noNewAwait_onEvent f event clock
  have hfiles : ∀ id' k, (RuntimeState.write { s with inbox := s.inbox.erase row } parent f
      (f.onEvent event clock) true).files id' = some k →
        (id' = parent ∧ k = f.onEvent event clock) ∨ (id' ≠ parent ∧ s.files id' = some k) := by
    intro id' k hk
    by_cases heq : id' = parent
    · subst heq
      rw [RuntimeState.files_write_self] at hk
      exact .inl ⟨rfl, (Option.some.inj hk).symm⟩
    · rw [RuntimeState.files_write_of_ne _ heq] at hk
      exact .inr ⟨heq, hk⟩
  refine ⟨fun id' k hk => ?_, fun id' k w hk hw => ?_⟩
  · rcases hfiles id' k hk with ⟨rfl, rfl⟩ | ⟨-, hold⟩
    · exact hkeeps.id.trans (hs.id id' f hf)
    · exact hs.id id' k hold
  · obtain ⟨k', hk', hw', hmatch⟩ : ∃ k', s.files id' = some k' ∧
        k'.SubJourneyWait (specs k'.row.journeyId) w ∧ (id' = parent →
          ¬ (w.eventKey = some event.key ∧ payloadMatches event.payload w.payload)) := by
      rcases hfiles id' k hk with ⟨rfl, rfl⟩ | ⟨hne, hold⟩
      · rw [hkeeps.journey] at hw
        obtain ⟨hopen, hne⟩ := openWaits_onEvent (openWaits_of_stepWaits hw.2)
        exact ⟨f, hf, hkeeps.waits w hw, fun _ hfor => hne w hopen hfor.1 hfor.2 rfl⟩
      · exact ⟨k, hold, hw, fun heq => absurd heq hne⟩
    obtain ⟨child, hawaits, hhear⟩ := hs.heard id' k' w hk' hw'
    have hother : row.enrollmentId = child → row.parentEnrollmentId ≠ some id' := by
      intro hchild hnames
      have hid : id' = parent := Option.some.inj (hnames.symm.trans hparent)
      refine hmatch hid ⟨?_, ?_⟩
      · rw [← hevent]
        exact hawaits.1
      · rw [← hevent]
        exact payloadMatches_exitPayload row hawaits hchild
    have hawaited : ({ s with inbox := s.inbox.erase row } : RuntimeState).Awaited child :=
      ⟨id', k', w, hk', openWaits_of_stepWaits hw'.2, hawaits⟩
    exact ⟨child, hawaits, willHear_write hs.id hf hkeeps.toTold (.inl rfl) hawaited
      (willHear_erase hhear hother)⟩

/-- A row that no parent in the files waits for. -/
theorem hears_erase (hs : s.Hears specs)
    (hrow : ∀ id f w, s.files id = some f → f.SubJourneyWait (specs f.row.journeyId) w →
      w.AwaitsEnd row.enrollmentId → row.parentEnrollmentId ≠ some id) :
    RuntimeState.Hears specs { s with inbox := s.inbox.erase row } := by
  refine ⟨hs.id, fun id f w hf hw => ?_⟩
  obtain ⟨child, hawaits, hhear⟩ := hs.heard id f w hf hw
  refine ⟨child, hawaits, willHear_erase hhear fun hchild => ?_⟩
  subst hchild
  exact hrow id f w hf hw hawaits

variable {a : RuntimeStep}

/-- **Every step** keeps what parents will hear. -/
theorem hears_step (hs : s.Hears specs) (hwaits : EveryFile (WaitsOk True) s)
    (hguard : ParentHears specs s a) (h : (runtimeMachine specs).step s a = some t) :
    t.Hears specs := by
  change RuntimeState.step specs s a = some t at h
  cases a with
  | enroll e => exact hs.insert h
  | node id env child running => exact hears_runNode hs hwaits hguard h
  | act id a running =>
    obtain ⟨f, hf, h⟩ := Option.bind_eq_some_iff.1 h
    obtain ⟨g, hg, rfl⟩ := Option.map_eq_some_iff.1 h
    exact hs.write hf (noNewAwait_apply hg) hguard
  | exited row eventId clock =>
    simp only [RuntimeState.step] at h
    split at h
    · split at h
      · rename_i f parent hf hparent
        cases h
        rw [hparent] at hf
        exact hears_event hs hf hparent eventId clock
      · rename_i hnone
        cases h
        refine hears_erase hs fun id f w hf _ _ hparent => ?_
        exact hnone f id (by rw [hparent]; exact hf) hparent
    · cases h
  | giveUp row =>
    simp only [RuntimeState.step] at h
    split at h
    · cases h
      refine hears_erase hs fun id f w hf hw hawaits => ?_
      exact absurd ⟨id, f, w, hf, openWaits_of_stepWaits hw.2, hawaits⟩ hguard
    · cases h

/-- The waits of every file, whatever was rescheduled late. -/
theorem waitsOk_step (hs : EveryFile (WaitsOk True) s)
    (h : (runtimeMachine specs).step s a = some t) : EveryFile (WaitsOk True) t := by
  refine everyFile_step hs (fun e spec => waitsOk_file e spec)
    (fun f g env more hf hrun => waitsOk_clearErrors (waitsOk_runNode hf hrun)) ?_
    (fun f event clock hf => waitsOk_onEvent hf event clock) h
  rintro id act running f g rfl - hf happly
  exact waitsOk_apply hf (.inl trivial) happly

theorem hears_of_reaches (h : (runtimeMachine specs).Reaches NoEnrollments (ParentHears specs) s) :
    s.Hears specs ∧ EveryFile (WaitsOk True) s := by
  refine h.invariant (I := fun s => s.Hears specs ∧ EveryFile (WaitsOk True) s) (fun s hs => ?_)
    fun s t a _ hs hguard hstep => ⟨hears_step hs.1 hs.2 hguard hstep, waitsOk_step hs.2 hstep⟩
  have hnone : ∀ id f, s.files id ≠ some f := by
    intro id f hf
    rw [hs] at hf
    cases hf
  exact ⟨⟨fun id f hf => absurd hf (hnone id f), fun id f w hf => absurd hf (hnone id f)⟩,
    fun id f hf => absurd hf (hnone id f)⟩

end Hears

/-! ### The law -/

/-- What the event of a child's end makes of its parent's wait: it is resolved, and the enrollment
runs on, unless a reply holds it. -/
structure Woken (f : EnrollmentFile) (w : JourneyWait) : Prop where
  resolved : EventResolved f w.id
  closed : ∀ w' ∈ f.waits, w'.id = w.id → w'.isOpen = false
  runs : f.row.state = .active ∨ ∃ w' ∈ f.waits, w'.isOpen = true ∧ w'.kind = .conversationClose

theorem woken_onEvent {f : EnrollmentFile} (hf : WaitsOk True f) {w : JourneyWait}
    (hw : w ∈ f.stepWaits) {event : RuntimeEvent} (hkey : w.eventKey = some event.key)
    (hmatch : payloadMatches event.payload w.payload) (clock : Instant) :
    Woken (f.onEvent event clock) w := by
  have hopen : w ∈ f.openWaits := openWaits_of_stepWaits hw
  have hclosed : ∀ w' ∈ (f.onEvent event clock).openWaits, w' ∈ f.openWaits ∧ w'.id ≠ w.id := by
    intro w' hw'
    obtain ⟨hmem, hne⟩ := openWaits_onEvent hw'
    exact ⟨hmem, hne w hopen hkey hmatch⟩
  refine ⟨resolved_onEvent hopen hkey hmatch, fun w' hw' hid => ?_, ?_⟩
  · cases hstill : w'.isOpen with
    | false => rfl
    | true => exact absurd hid (hclosed w' (List.mem_filter.2 ⟨hw', hstill⟩)).2
  · have hstate : f.row.state.isOpen = true := by
      cases hs : f.row.state.isOpen with
      | true => rfl
      | false => simp [(hf.finished hs).1] at hopen
    have hsame : (f.onEvent event clock).row.state.isOpen = true :=
      onEvent_rule (P := fun g => g.row.state.isOpen = true) hstate fun g v hg => by
        rw [isOpen_resolveWait, hg]
    have hok := waitsOk_onEvent hf event clock
    rcases isOpen_iff.1 hsame with hactive | hwaiting
    · exact .inl hactive
    · -- Of a step's waits only this one was open.
      obtain ⟨w', hw'⟩ := List.exists_mem_of_ne_nil _ (hok.waiting hwaiting)
      obtain ⟨hmem, hopen'⟩ := List.mem_filter.1 hw'
      refine .inr ⟨w', hmem, hopen', ?_⟩
      by_contra hkind
      have hstep : w' ∈ f.stepWaits := List.mem_filter.2 ⟨(hclosed w' hw').1, by simpa using hkind⟩
      obtain ⟨v, hv⟩ := List.length_eq_one_iff.1
        (Nat.le_antisymm hf.single (List.length_pos_of_mem hw))
      rw [hv, List.mem_singleton] at hstep hw
      exact (hclosed w' hw').2 (by rw [hstep, hw])

/-- The wait of a parent for its child: the child is open, or the inbox has the row of its end, and
the event of that row wakes the parent. -/
def RuntimeState.Wakes (specs : Specs) (s : RuntimeState) (id : String) (w : JourneyWait) : Prop :=
  ∃ child, w.AwaitsEnd child ∧
    ((∃ g, s.files child = some g ∧ g.row.state.isOpen = true) ∨
      ∃ row ∈ s.inbox, row.enrollmentId = child ∧ ∀ eventId clock, ∃ t g,
        (runtimeMachine specs).step s (.exited row eventId clock) = some t ∧
          t.files id = some g ∧ Woken g w)

/-- **The end of a child wakes its parent.** In every state reached by steps of which an awaited
child is heard, whoever waits at a `sub_journey` node waits for a child that is open, or whose end
is told by a row that resolves the wait. -/
theorem child_end_wakes_parent {specs : Specs} {s : RuntimeState}
    (h : (runtimeMachine specs).Reaches NoEnrollments (ParentHears specs) s) {id : String}
    {f : EnrollmentFile} (hf : s.files id = some f) {w : JourneyWait}
    (hw : f.SubJourneyWait (specs f.row.journeyId) w) : s.Wakes specs id w := by
  obtain ⟨hhears, hwaits⟩ := hears_of_reaches h
  obtain ⟨child, hawaits, hhear⟩ := hhears.heard id f w hf hw
  refine ⟨child, hawaits, ?_⟩
  rcases hhear with ⟨g, hg, hopen, -⟩ | ⟨row, hrow, hid, hparent⟩
  · exact .inl ⟨g, hg, hopen⟩
  · refine .inr ⟨row, hrow, hid, fun eventId clock => ?_⟩
    refine ⟨RuntimeState.write { s with inbox := s.inbox.erase row } id f
      (f.onEvent ⟨"journey.exited", RuntimeState.exitPayload row, eventId⟩ clock) true, _, ?_,
      RuntimeState.files_write_self .., ?_⟩
    · change RuntimeState.step specs s (.exited row eventId clock) = _
      simp only [RuntimeState.step, if_pos hrow, hparent, Option.bind_some, hf]
    · exact woken_onEvent (hwaits id f hf) hw.2 hawaits.1
        (payloadMatches_exitPayload row hawaits hid) clock

/-- A journey that puts its subject into another one and waits for its end. -/
def awaitingSpec : JourneySpec where
  entry := { trigger := .manual }
  start := "call"
  nodes := [.subJourney { id := "call", journeyId := "j2", await := true }]

/-- A journey that ends at once, with some of its subjects held out. -/
def calledSpec (holdoutPct : Nat) : JourneySpec where
  entry := { trigger := .manual }
  goal := some { event := "order", windowDays := 7 }
  settings := { holdoutPct }
  start := "end"
  nodes := [.exit { id := "end" }]

/-- The two journeys. -/
def awaitingSpecs (holdoutPct : Nat) : Specs := fun journeyId _ =>
  some (if journeyId = "j1" then awaitingSpec else calledSpec holdoutPct)

/-- A contact put into the first of them. -/
def parentEntry : NewEnrollment where
  id := "e1"
  journeyId := "j1"
  version := 1
  contactId := some "2"
  subjectKey := "c:2"
  now := 0

/-- The enrollment in the other journey. -/
def childEntry : NewEnrollment where
  id := "e2"
  journeyId := "j2"
  version := 1
  contactId := some "2"
  subjectKey := "c:2"
  now := 0

/-- The parent's step puts the contact into the other journey. -/
def awaitingRun : List RuntimeStep :=
  [.enroll parentEntry, .node "e1" { now := 0, clock := 0 } (some childEntry) true]

/-- The child ends. -/
def childEnds : List RuntimeStep :=
  awaitingRun ++ [.node "e2" { now := 0, clock := 0 } none true]

/-- The state after a few steps of the two. -/
def awaitingState (holdoutPct : Nat) (steps : List RuntimeStep) : RuntimeState :=
  ((runtimeMachine (awaitingSpecs holdoutPct)).run {} steps).getD {}

theorem child_end_wakes_parent_sample :
    ∃ f w, (awaitingState 0 childEnds).files "e1" = some f ∧ f.waits = [w] ∧
      (awaitingState 0 childEnds).Wakes (awaitingSpecs 0) "e1" w := by
  have hreaches : (runtimeMachine (awaitingSpecs 0)).Reaches NoEnrollments
      (ParentHears (awaitingSpecs 0)) (awaitingState 0 childEnds) := by
    have hrun : (runtimeMachine (awaitingSpecs 0)).run {} childEnds =
        some (awaitingState 0 childEnds) := rfl
    have hstart : NoEnrollments {} := rfl
    refine Machine.reaches_of_run hstart (fun a ha u => ?_) hrun
    simp only [childEnds, awaitingRun, List.cons_append, List.nil_append, List.mem_cons,
      List.not_mem_nil, or_false] at ha
    rcases ha with rfl | rfl | rfl
    · trivial
    · refine ⟨.inl rfl, fun f node _ _ _ e he spec hspec => ?_⟩
      cases he
      cases hspec
      exact Nat.zero_le _
    · exact ⟨.inl rfl, fun f node _ _ _ e he => by cases he⟩
  obtain ⟨f, w, hf, hwaits, hw⟩ : ∃ f w, (awaitingState 0 childEnds).files "e1" = some f ∧
      f.waits = [w] ∧ f.SubJourneyWait (awaitingSpecs 0 f.row.journeyId) w := by
    refine ⟨_, _, rfl, rfl, ⟨_, _, _, rfl, rfl, rfl⟩, ?_⟩
    exact List.mem_cons_self
  exact ⟨f, w, hf, hwaits, child_end_wakes_parent hreaches hf hw⟩

/-- **A child that is held out.** The parent waits for an enrollment that was inserted as done, and
nothing tells of that end. -/
theorem held_out_child_unheard :
    ¬ ∀ (specs : Specs) (s : RuntimeState), (runtimeMachine specs).Reachable NoEnrollments s →
      ∀ id f w, s.files id = some f → f.SubJourneyWait (specs f.row.journeyId) w →
        s.Wakes specs id w := by
  intro h
  have hrun : (runtimeMachine (awaitingSpecs 50)).run {} awaitingRun =
      some (awaitingState 50 awaitingRun) := rfl
  have hstart : NoEnrollments {} := rfl
  obtain ⟨f, w, hf, -, hw, hpayload⟩ : ∃ f w,
      (awaitingState 50 awaitingRun).files "e1" = some f ∧ f.waits = [w] ∧
      f.SubJourneyWait (awaitingSpecs 50 f.row.journeyId) w ∧
      w.payload = [("enrollmentId", .str "e2")] := by
    refine ⟨_, _, rfl, rfl, ⟨⟨_, _, _, rfl, rfl, rfl⟩, ?_⟩, rfl⟩
    exact List.mem_cons_self
  obtain ⟨child, hawaits, hwakes⟩ := h _ _ (Machine.reachable_of_run hstart hrun) "e1" f w hf hw
  obtain rfl : "e2" = child := by simpa [hpayload] using hawaits.2
  have hended : ∀ g, (awaitingState 50 awaitingRun).files "e2" = some g →
      g.row.state.isOpen = false := by
    rintro g hg
    cases hg
    rfl
  have hinbox : (awaitingState 50 awaitingRun).inbox = [] := rfl
  rcases hwakes with ⟨g, hg, hopen⟩ | ⟨row, hrow, -⟩
  · exact absurd ((hended g hg).symm.trans hopen) Bool.false_ne_true
  · rw [hinbox] at hrow
    cases hrow

end Munin
