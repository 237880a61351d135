import Munin.Journeys.Runtime.Awaits
import Munin.Journeys.Runtime.Bounds

/-!
# Steps that ask for an answer

An agent step, a message that an agent drafts and an approval step open a wait that a submission
resolves. The rows say who was asked, and what a step can still be asked.

* **`RecordsOk`** — what the rows of an enrollment say of each other: of the waits of a step the one
  that asks comes first, and a step has one approval.
* **`StandingOk`** — where an open enrollment stands: an open step is the visit that its row counts,
  and it waits or tries again.
* **`AsksOk`** — both for an open enrollment; one that has ended has nothing left to approve.
* **`Rewrites`** — a write to rows that are there, which leaves alone which visit a step run is and
  at most resolves waits and decides approvals.
-/

namespace Munin

open Foundations

/-- A submission resolves waits of these kinds. -/
def WaitKind.asks : WaitKind → Bool
  | .agent | .approval => true
  | .timer | .event | .proposal | .conversationClose => false

/-- The waits of a step, oldest first, without those of replies. -/
def EnrollmentFile.waitsOf (f : EnrollmentFile) (run : Nat) : List JourneyWait :=
  f.waits.filter fun w => w.stepRunId = run && w.kind ≠ .conversationClose

/-! ### The rows -/

/-- A wait that asks is the first of its step, no later one asks, and there is none while it is
open. -/
def EnrollmentFile.AsksFirst (f : EnrollmentFile) (w : JourneyWait) : Prop :=
  ∃ rest, f.waitsOf w.stepRunId = w :: rest ∧ (∀ w' ∈ rest, w'.kind.asks = false) ∧
    (w.isOpen = true → rest = [])

/-- The wait of an approval step names the approval of its step. -/
def EnrollmentFile.NamesApproval (f : EnrollmentFile) (w : JourneyWait) : Prop :=
  ∃ a ∈ f.approvals, a.stepRunId = w.stepRunId ∧
    w.payload = [("approvalId", .str (toString a.id))]

/-- The type of the step that a wait of this kind belongs to. -/
def WaitKind.Of : WaitKind → Option JourneyNodeType → Prop
  | .agent, type => type = some .agent ∨ type = some .message
  | .approval, type => type = some .approval
  | .timer, _ | .event, _ | .proposal, _ | .conversationClose, _ => True

/-- What the rows of an enrollment say of each other. -/
structure RecordsOk (f : EnrollmentFile) : Prop where
  ids : (f.steps.map (·.id)).Nodup
  keys : (f.steps.map fun s => (s.nodeId, s.visit)).Nodup
  fresh : ∀ s ∈ f.steps, s.id < f.nextId
  waitFresh : ∀ w ∈ f.waits, w.stepRunId < f.nextId
  waitType : ∀ w ∈ f.waits, w.kind.asks = true →
    ∃ s ∈ f.steps, s.id = w.stepRunId ∧ w.kind.Of s.nodeType
  asksFirst : ∀ w ∈ f.waits, w.kind.asks = true → f.AsksFirst w
  named : ∀ w ∈ f.waits, w.kind = .approval → f.NamesApproval w
  approvalFresh : ∀ a ∈ f.approvals, a.id < f.nextId
  approvalIds : (f.approvals.map (·.id)).Nodup
  approvalRuns : (f.approvals.map (·.stepRunId)).Nodup
  approvalType : ∀ a ∈ f.approvals, ∃ s ∈ f.steps, s.id = a.stepRunId ∧
    s.nodeType = some .approval

/-- A step run is the current visit of its enrollment. -/
def Enrollment.AtVisit (e : Enrollment) (s : StepRun) : Prop :=
  e.currentNode = some s.nodeId ∧ e.visits.get s.nodeId = some (.count s.visit)

/-- Where an open enrollment stands. -/
structure StandingOk (specs : Nat → Option JourneySpec) (f : EnrollmentFile) : Prop where
  counted : ∀ s ∈ f.steps, ∃ n, f.row.visits.get s.nodeId = some (.count n) ∧ s.visit ≤ n
  entered : ∀ node, f.row.currentNode = some node → (f.row.visits.get node).isSome
  current : ∀ s ∈ f.steps, s.status.isOpen = true → f.row.AtVisit s
  resumable : ∀ s ∈ f.steps, f.row.AtVisit s → s.status = .waiting ∨ s.status = .retrying
  typed : ∀ s ∈ f.steps, s.status.isOpen = true → ∃ spec node,
    specs f.row.version = some spec ∧ spec.node s.nodeId = some node ∧ s.nodeType = some node.type
  retrying : ∀ s ∈ f.steps, s.status = .retrying → s.nodeType = some .action
  waiting : ∀ s ∈ f.steps, s.status = .waiting → f.waitsOf s.id ≠ []
  asking : ∀ w ∈ f.waits, w.isOpen = true → w.kind.asks = true →
    ∃ s ∈ f.steps, s.id = w.stepRunId ∧ s.status = .waiting

/-- The run of a visit is found. -/
theorem visitRun_eq {f : EnrollmentFile} {run : StepRun} {nodeId : NodeId} {visit : Nat}
    (hf : RecordsOk f) (hrun : run ∈ f.steps) (hnode : run.nodeId = nodeId)
    (hvisit : run.visit = visit) : f.visitRun nodeId visit = some run := by
  cases hfind : f.visitRun nodeId visit with
  | none => exact (visitRun_eq_none hfind ⟨run, hrun, hnode, hvisit⟩).elim
  | some other =>
    obtain ⟨hother, hnode', hvisit'⟩ := visitRun_eq_some hfind
    rw [List.inj_on_of_nodup_map hf.keys hother hrun (by rw [hnode', hvisit', hnode, hvisit])]

/-- The row stands at the run of its current visit. -/
theorem StandingOk.atVisit {specs : Nat → Option JourneySpec} {f : EnrollmentFile} {run : StepRun}
    {nodeId : NodeId} {visit : Nat} (hf : StandingOk specs f)
    (hcurrent : f.row.currentNode = some nodeId)
    (hvisit : f.row.visits.current nodeId = .count visit) (hnode : run.nodeId = nodeId)
    (hrun : run.visit = visit) : f.row.AtVisit run := by
  obtain ⟨c, hc⟩ := Option.isSome_iff_exists.1 (hf.entered _ hcurrent)
  rw [Visits.current, hc, Option.getD_some] at hvisit
  exact ⟨by rw [hnode, hcurrent], by rw [hnode, hrun, hc, hvisit]⟩

/-- The invariant: of an open enrollment, its rows and where it stands; once it has ended, nothing
is left to approve. -/
structure AsksOk (specs : Nat → Option JourneySpec) (f : EnrollmentFile) : Prop where
  records : f.row.state.isOpen = true → RecordsOk f
  standing : f.row.state.isOpen = true → StandingOk specs f
  ended : f.row.state.isOpen = false → ∀ a ∈ f.approvals, a.status ≠ .pending

/-! ### Writes to rows that are there -/

/-- A step run after a write that leaves alone which visit it is. -/
structure SameRun (s t : StepRun) : Prop where
  id : t.id = s.id
  nodeId : t.nodeId = s.nodeId
  visit : t.visit = s.visit
  nodeType : t.nodeType = s.nodeType

theorem SameRun.refl (s : StepRun) : SameRun s s := ⟨rfl, rfl, rfl, rfl⟩

theorem SameRun.trans {s t u : StepRun} (hst : SameRun s t) (htu : SameRun t u) : SameRun s u :=
  ⟨htu.id.trans hst.id, htu.nodeId.trans hst.nodeId, htu.visit.trans hst.visit,
    htu.nodeType.trans hst.nodeType⟩

/-- A wait after a write that perhaps resolves it. -/
structure SameWait (w v : JourneyWait) : Prop where
  stepRunId : v.stepRunId = w.stepRunId
  kind : v.kind = w.kind
  payload : v.payload = w.payload
  resolved : w.isOpen = false → v = w

theorem SameWait.refl (w : JourneyWait) : SameWait w w := ⟨rfl, rfl, rfl, fun _ => rfl⟩

variable {w v : JourneyWait}

/-- A wait that is open was open before. -/
theorem SameWait.isOpen (h : SameWait w v) (hv : v.isOpen = true) : w.isOpen = true := by
  cases hw : w.isOpen with
  | true => rfl
  | false => exact absurd (h.resolved hw ▸ hv) (by simp [hw])

theorem SameWait.trans {u : JourneyWait} (hwv : SameWait w v) (hvu : SameWait v u) :
    SameWait w u where
  stepRunId := hvu.stepRunId.trans hwv.stepRunId
  kind := hvu.kind.trans hwv.kind
  payload := hvu.payload.trans hwv.payload
  resolved hw := by
    have hv := hwv.resolved hw
    rw [hvu.resolved (hv ▸ hw), hv]

/-- An approval after a write that perhaps decides it. -/
structure SameApproval (a b : JourneyApproval) : Prop where
  id : b.id = a.id
  stepRunId : b.stepRunId = a.stepRunId
  decided : a.status ≠ .pending → b = a

theorem SameApproval.refl (a : JourneyApproval) : SameApproval a a := ⟨rfl, rfl, fun _ => rfl⟩

theorem SameApproval.trans {a b c : JourneyApproval} (hab : SameApproval a b)
    (hbc : SameApproval b c) : SameApproval a c where
  id := hbc.id.trans hab.id
  stepRunId := hbc.stepRunId.trans hab.stepRunId
  decided ha := by
    have hb := hab.decided ha
    rw [hbc.decided (hb ▸ ha), hb]

/-- A write to the rows that are there, which inserts none. -/
structure Rewrites (f g : EnrollmentFile) (onStep : StepRun → StepRun) : Prop where
  steps : g.steps = f.steps.map onStep
  same : ∀ s, SameRun s (onStep s)
  waits : ∃ onWait, g.waits = f.waits.map onWait ∧ ∀ w, SameWait w (onWait w)
  approvals : ∃ onApproval, g.approvals = f.approvals.map onApproval ∧
    ∀ a, SameApproval a (onApproval a)
  nextId : g.nextId = f.nextId

section Rewrites

variable {specs : Nat → Option JourneySpec} {f g h : EnrollmentFile}
  {onStep onStep' : StepRun → StepRun}

theorem Rewrites.refl (f : EnrollmentFile) : Rewrites f f id where
  steps := (List.map_id _).symm
  same := .refl
  waits := ⟨id, (List.map_id _).symm, .refl⟩
  approvals := ⟨id, (List.map_id _).symm, .refl⟩
  nextId := rfl

theorem Rewrites.trans (hfg : Rewrites f g onStep) (hgh : Rewrites g h onStep') :
    Rewrites f h (onStep' ∘ onStep) where
  steps := by rw [hgh.steps, hfg.steps, List.map_map]
  same s := (hfg.same s).trans (hgh.same _)
  waits := by
    obtain ⟨p, hp, hsame⟩ := hfg.waits
    obtain ⟨q, hq, hsame'⟩ := hgh.waits
    exact ⟨q ∘ p, by rw [hq, hp, List.map_map], fun w => (hsame w).trans (hsame' _)⟩
  approvals := by
    obtain ⟨p, hp, hsame⟩ := hfg.approvals
    obtain ⟨q, hq, hsame'⟩ := hgh.approvals
    exact ⟨q ∘ p, by rw [hq, hp, List.map_map], fun a => (hsame a).trans (hsame' _)⟩
  nextId := hgh.nextId.trans hfg.nextId

theorem rewrites_updateRow (f : EnrollmentFile) (p : Enrollment → Enrollment) :
    Rewrites f (f.updateRow p) id :=
  { Rewrites.refl f with }

theorem rewrites_moveOn (f : EnrollmentFile) (env : StepEnv) (spec : JourneySpec) (to' : NodeId) :
    Rewrites f (f.moveOn env spec to') id :=
  rewrites_updateRow f _

theorem rewrites_updateSteps (f : EnrollmentFile) (p : StepRun → Bool) {q : StepRun → StepRun}
    (hq : ∀ s, SameRun s (q s)) :
    Rewrites f (f.updateSteps p q) (fun s => if p s then q s else s) where
  steps := rfl
  same s := by
    split
    · exact hq s
    · exact .refl s
  waits := (Rewrites.refl f).waits
  approvals := (Rewrites.refl f).approvals
  nextId := rfl

/-- Waits that are resolved while they are open. -/
theorem rewrites_updateWaits (f : EnrollmentFile) (p : JourneyWait → Bool)
    (clock : Instant) (resolution : String) (hp : ∀ w, p w = true → w.isOpen = true) :
    Rewrites f (f.updateWaits p fun w => { w with resolvedAt := clock, resolution }) id :=
  { Rewrites.refl f with
    waits := by
      refine ⟨_, rfl, fun w => ?_⟩
      split
      · rename_i hw
        refine ⟨rfl, rfl, rfl, fun hopen => ?_⟩
        rw [hp w hw] at hopen
        cases hopen
      · exact .refl w }

/-- Approvals that get a status while they are pending. -/
theorem rewrites_updateApprovals (f : EnrollmentFile) (p : JourneyApproval → Bool)
    (status : ApprovalStatus) (hp : ∀ a, p a = true → a.status = .pending) :
    Rewrites f (f.updateApprovals p fun a => { a with status }) id :=
  { Rewrites.refl f with
    approvals := by
      refine ⟨_, rfl, fun a => ?_⟩
      split
      · rename_i ha
        exact ⟨rfl, rfl, fun hdecided => absurd (hp a ha) hdecided⟩
      · exact .refl a }

theorem rewrites_cancelWaits (f : EnrollmentFile) (clock : Instant) :
    Rewrites f (f.cancelWaits clock) id :=
  rewrites_updateWaits f _ clock "cancelled" fun _ hw => hw

theorem rewrites_resolveWait (f : EnrollmentFile) (id' : Nat) (resolution : String)
    (context : Record) (clock : Instant) :
    Rewrites f (f.resolveWait id' resolution context clock) id := by
  have hclosed : Rewrites f (f.updateWaits (fun w => w.id = id' && w.isOpen)
      fun w => { w with resolvedAt := clock, resolution }) id :=
    rewrites_updateWaits f _ clock resolution fun w hw => (Bool.and_eq_true_iff.1 hw).2
  unfold EnrollmentFile.resolveWait
  split
  · exact .refl f
  · dsimp only
    split
    · exact hclosed
    · split
      · exact hclosed.trans (rewrites_updateRow _ _)
      · exact hclosed.trans ((rewrites_updateRow _ _).trans (rewrites_updateRow _ _))

/-- What a write to the rows that are there leaves of a step's waits. -/
theorem waitsOf_map {onWait : JourneyWait → JourneyWait} (hwaits : g.waits = f.waits.map onWait)
    (hsame : ∀ w, SameWait w (onWait w)) (run : Nat) :
    g.waitsOf run = (f.waitsOf run).map onWait := by
  unfold EnrollmentFile.waitsOf
  rw [hwaits, List.filter_map]
  refine congrArg _ (List.filter_congr fun w _ => ?_)
  simp only [Function.comp_apply, (hsame w).stepRunId, (hsame w).kind]

/-- **What the rows say of each other** outlasts writes to them. -/
theorem RecordsOk.rewrites (hf : RecordsOk f) (h : Rewrites f g onStep) : RecordsOk g := by
  obtain ⟨onWait, hwaits, hwait⟩ := h.waits
  obtain ⟨onApproval, happrovals, happroval⟩ := h.approvals
  have hstep : ∀ {run : Nat} {P : Option JourneyNodeType → Prop},
      (∃ s ∈ f.steps, s.id = run ∧ P s.nodeType) →
      ∃ s ∈ g.steps, s.id = run ∧ P s.nodeType := by
    rintro run P ⟨s, hs, hid, hP⟩
    refine ⟨onStep s, h.steps ▸ List.mem_map_of_mem hs, (h.same s).id.trans hid, ?_⟩
    rwa [(h.same s).nodeType]
  refine
    { ids := ?_, keys := ?_, fresh := ?_, waitFresh := ?_, waitType := ?_, asksFirst := ?_,
      named := ?_, approvalFresh := ?_, approvalIds := ?_, approvalRuns := ?_,
      approvalType := ?_ }
  · rw [h.steps, List.map_map]
    simpa only [Function.comp_def, (h.same _).id] using hf.ids
  · rw [h.steps, List.map_map]
    simpa only [Function.comp_def, (h.same _).nodeId, (h.same _).visit] using hf.keys
  · rw [h.steps, h.nextId]
    intro s hs
    obtain ⟨t, ht, rfl⟩ := List.mem_map.1 hs
    exact (h.same t).id ▸ hf.fresh t ht
  · rw [hwaits, h.nextId]
    intro w hw
    obtain ⟨v, hv, rfl⟩ := List.mem_map.1 hw
    exact (hwait v).stepRunId ▸ hf.waitFresh v hv
  · rw [hwaits]
    intro w hw hasks
    obtain ⟨v, hv, rfl⟩ := List.mem_map.1 hw
    rw [(hwait v).kind] at hasks ⊢
    rw [(hwait v).stepRunId]
    exact hstep (hf.waitType v hv hasks)
  · rw [hwaits]
    intro w hw hasks
    obtain ⟨v, hv, rfl⟩ := List.mem_map.1 hw
    rw [(hwait v).kind] at hasks
    obtain ⟨rest, hrest, hlater, hopen⟩ := hf.asksFirst v hv hasks
    refine ⟨rest.map onWait, ?_, fun w hw => ?_, fun hv => ?_⟩
    · rw [(hwait v).stepRunId, waitsOf_map hwaits hwait, hrest, List.map_cons]
    · obtain ⟨u, hu, rfl⟩ := List.mem_map.1 hw
      rw [(hwait u).kind]
      exact hlater u hu
    · rw [hopen ((hwait v).isOpen hv), List.map_nil]
  · rw [hwaits]
    intro w hw hkind
    obtain ⟨v, hv, rfl⟩ := List.mem_map.1 hw
    obtain ⟨a, ha, hrun, hpayload⟩ := hf.named v hv ((hwait v).kind ▸ hkind)
    refine ⟨onApproval a, happrovals ▸ List.mem_map_of_mem ha, ?_, ?_⟩
    · rw [(happroval a).stepRunId, (hwait v).stepRunId, hrun]
    · rw [(hwait v).payload, (happroval a).id, hpayload]
  · rw [happrovals, h.nextId]
    intro a ha
    obtain ⟨b, hb, rfl⟩ := List.mem_map.1 ha
    exact (happroval b).id ▸ hf.approvalFresh b hb
  · rw [happrovals, List.map_map]
    simpa only [Function.comp_def, (happroval _).id] using hf.approvalIds
  · rw [happrovals, List.map_map]
    simpa only [Function.comp_def, (happroval _).stepRunId] using hf.approvalRuns
  · rw [happrovals]
    intro a ha
    obtain ⟨b, hb, rfl⟩ := List.mem_map.1 ha
    rw [(happroval b).stepRunId]
    exact hstep (P := fun type => type = some .approval) (hf.approvalType b hb)

/-- A write that moves no step and leaves the row where it stands. -/
theorem StandingOk.steady (hf : StandingOk specs f) (h : Rewrites f g onStep)
    (hstatus : ∀ s, (onStep s).status = s.status) (hversion : g.row.version = f.row.version)
    (hnode : g.row.currentNode = f.row.currentNode) (hvisits : g.row.visits = f.row.visits) :
    StandingOk specs g := by
  obtain ⟨onWait, hwaits, hwait⟩ := h.waits
  have hat : ∀ s, g.row.AtVisit (onStep s) ↔ f.row.AtVisit s := by
    intro s
    unfold Enrollment.AtVisit
    rw [hnode, hvisits, (h.same s).nodeId, (h.same s).visit]
  have hmem : ∀ {P : StepRun → Prop}, (∀ s ∈ f.steps, P (onStep s)) → ∀ s ∈ g.steps, P s :=
    fun hP => h.steps ▸ List.forall_mem_map.2 hP
  refine
    { counted := hmem fun s hs => ?_, entered := ?_, current := hmem fun s hs hopen => ?_,
      resumable := hmem fun s hs hvisit => ?_, typed := hmem fun s hs hopen => ?_,
      retrying := hmem fun s hs hretry => ?_, waiting := hmem fun s hs hwaiting => ?_,
      asking := ?_ }
  · rw [hvisits, (h.same s).nodeId, (h.same s).visit]
    exact hf.counted s hs
  · rw [hnode, hvisits]
    exact hf.entered
  · exact (hat s).2 (hf.current s hs (hstatus s ▸ hopen))
  · rw [hstatus]
    exact hf.resumable s hs ((hat s).1 hvisit)
  · rw [hversion, (h.same s).nodeId, (h.same s).nodeType]
    exact hf.typed s hs (hstatus s ▸ hopen)
  · rw [(h.same s).nodeType]
    exact hf.retrying s hs (hstatus s ▸ hretry)
  · rw [(h.same s).id, waitsOf_map hwaits hwait]
    exact fun hnone => hf.waiting s hs (hstatus s ▸ hwaiting) (List.map_eq_nil_iff.1 hnone)
  · rw [hwaits]
    intro w hw hopen hasks
    obtain ⟨v, hv, rfl⟩ := List.mem_map.1 hw
    obtain ⟨s, hs, hid, hwaiting⟩ :=
      hf.asking v hv ((hwait v).isOpen hopen) ((hwait v).kind ▸ hasks)
    refine ⟨onStep s, h.steps ▸ List.mem_map_of_mem hs, ?_, ?_⟩
    · rw [(h.same s).id, (hwait v).stepRunId, hid]
    · rw [hstatus, hwaiting]

/-- A run of a node that was entered before is no run of the visit that now begins. -/
theorem not_atVisit_enter {e e' : Enrollment} {s : StepRun} {node : NodeId} {n : Nat}
    (hcounted : e.visits.get s.nodeId = some (.count n)) (hle : s.visit ≤ n)
    (hnode : e'.currentNode = some node) (hvisits : e'.visits = e.visits.enter node) :
    ¬ e'.AtVisit s := by
  rintro ⟨hcurrent, hcount⟩
  obtain rfl : node = s.nodeId := Option.some.inj (hnode.symm.trans hcurrent)
  rw [hvisits, Visits.get_enter_self, Visits.nextVisit, hcounted] at hcount
  have heq : n + 1 = s.visit := by simpa using hcount
  omega

/-- **A node is entered**, with every step closed and no wait open. -/
theorem standingOk_enter
    (hcounted : ∀ s ∈ f.steps, ∃ n, f.row.visits.get s.nodeId = some (.count n) ∧ s.visit ≤ n)
    (h : Rewrites f g onStep) (hclosed : ∀ s ∈ f.steps, (onStep s).status.isOpen = false)
    (hnone : g.openWaits = []) {node : NodeId} (hnode : g.row.currentNode = some node)
    (hvisits : g.row.visits = f.row.visits.enter node) : StandingOk specs g := by
  have hmem : ∀ s ∈ g.steps, s.status.isOpen = false ∧ ¬ g.row.AtVisit s ∧
      ∃ n, g.row.visits.get s.nodeId = some (.count n) ∧ s.visit ≤ n := by
    intro s hs
    rw [h.steps] at hs
    obtain ⟨t, ht, rfl⟩ := List.mem_map.1 hs
    obtain ⟨n, hn, hle⟩ := hcounted t ht
    have hn' : f.row.visits.get (onStep t).nodeId = some (.count n) := (h.same t).nodeId ▸ hn
    have hle' : (onStep t).visit ≤ n := (h.same t).visit ▸ hle
    refine ⟨hclosed t ht, not_atVisit_enter hn' hle' hnode hvisits, ?_⟩
    by_cases heq : (onStep t).nodeId = node
    · refine ⟨n + 1, ?_, by omega⟩
      rw [hvisits, heq, Visits.get_enter_self, Visits.nextVisit, ← heq, hn']
    · refine ⟨n, ?_, hle'⟩
      rw [hvisits, Visits.get_enter_of_ne _ heq, hn']
  have hshut : ∀ s ∈ g.steps, s.status.isOpen = true → False := by
    intro s hs hopen
    rw [(hmem s hs).1] at hopen
    cases hopen
  refine
    { counted := fun s hs => (hmem s hs).2.2, entered := fun current hcurrent => ?_,
      current := fun s hs hopen => (hshut s hs hopen).elim
      resumable := fun s hs hat => absurd hat (hmem s hs).2.1
      typed := fun s hs hopen => (hshut s hs hopen).elim
      retrying := fun s hs hretry => (hshut s hs (by rw [hretry]; rfl)).elim
      waiting := fun s hs hwaiting => (hshut s hs (by rw [hwaiting]; rfl)).elim
      asking := fun w hw hopen _ => ?_ }
  · obtain rfl : node = current := Option.some.inj (hnode.symm.trans hcurrent)
    rw [hvisits, Visits.get_enter_self]
    rfl
  · have hopen' : w ∈ g.openWaits := List.mem_filter.2 ⟨hw, hopen⟩
    simp [hnone] at hopen'

end Rewrites

/-! ### Ends -/

section Ends

variable {specs : Nat → Option JourneySpec} {f g : EnrollmentFile}

/-- What the end of a run does to its steps. -/
def closeStep (reason : String) (clock : Instant) (s : StepRun) : StepRun :=
  if s.status.isOpen then { s with status := .cancelled, reason, finishedAt := clock } else s

theorem closed_closeStep (reason : String) (clock : Instant) (s : StepRun) :
    (closeStep reason clock s).status.isOpen = false := by
  unfold closeStep
  split
  · rfl
  · rename_i h
    exact Bool.eq_false_iff.2 h

theorem rewrites_closeOpenSteps (f : EnrollmentFile) (reason : String) (clock : Instant) :
    Rewrites f (f.closeOpenSteps reason clock) (closeStep reason clock) := by
  have hwaits := rewrites_cancelWaits f clock
  have happrovals := rewrites_updateApprovals (f.cancelWaits clock)
    (fun a => decide (a.status = .pending)) .expired fun a ha => of_decide_eq_true ha
  have hsteps := rewrites_updateSteps ((f.cancelWaits clock).updateApprovals
      (fun a => decide (a.status = .pending)) fun a => { a with status := .expired })
    (·.status.isOpen) (q := fun s => { s with status := .cancelled, reason, finishedAt := clock })
    fun _ => ⟨rfl, rfl, rfl, rfl⟩
  exact (hwaits.trans happrovals).trans hsteps

/-- Nothing is left to approve once the steps are closed. -/
theorem not_pending_closeOpenSteps (f : EnrollmentFile) (reason : String) (clock : Instant) :
    ∀ a ∈ (f.closeOpenSteps reason clock).approvals, a.status ≠ .pending := by
  intro a ha
  obtain ⟨b, -, rfl⟩ := List.mem_map.1 ha
  split
  · simp
  · rename_i hdecided
    simpa using hdecided

/-- An enrollment that has ended, and has nothing left to approve. -/
theorem asksOk_of_ended (hclosed : f.row.state.isOpen = false)
    (h : ∀ a ∈ f.approvals, a.status ≠ .pending) : AsksOk specs f where
  records hopen := absurd (hclosed.symm.trans hopen) Bool.false_ne_true
  standing hopen := absurd (hclosed.symm.trans hopen) Bool.false_ne_true
  ended _ := h

theorem asksOk_of_open (hrecords : RecordsOk f) (hstanding : StandingOk specs f)
    (hopen : f.row.state.isOpen = true) : AsksOk specs f where
  records _ := hrecords
  standing _ := hstanding
  ended hclosed := absurd (hclosed.symm.trans hopen) Bool.false_ne_true

/-- **The end of a run**: whatever was open before is closed. -/
theorem asksOk_finish (hopen : f.row.state.isOpen = true) (reason : String) (clock : Instant) :
    AsksOk specs (f.finish reason clock) := by
  refine asksOk_of_ended (isOpen_finish f reason clock) ?_
  unfold EnrollmentFile.finish
  rw [if_pos hopen]
  exact not_pending_closeOpenSteps _ ("the journey run ended (" ++ reason ++ ")") clock

theorem AsksOk.finish (hf : AsksOk specs f) (reason : String) (clock : Instant) :
    AsksOk specs (f.finish reason clock) := by
  cases hopen : f.row.state.isOpen with
  | true => exact asksOk_finish hopen reason clock
  | false =>
    unfold EnrollmentFile.finish
    rw [hopen, if_neg Bool.false_ne_true]
    exact hf

/-- A node is entered, with every step closed and no wait open. -/
theorem AsksOk.enter (hf : AsksOk specs f) (hopen : f.row.state.isOpen = true)
    {onStep : StepRun → StepRun} (h : Rewrites f g onStep)
    (hclosed : ∀ s ∈ f.steps, (onStep s).status.isOpen = false) (hnone : g.openWaits = [])
    {node : NodeId} (hnode : g.row.currentNode = some node)
    (hvisits : g.row.visits = f.row.visits.enter node) (hg : g.row.state.isOpen = true) :
    AsksOk specs g :=
  asksOk_of_open ((hf.records hopen).rewrites h)
    (standingOk_enter (hf.standing hopen).counted h hclosed hnone hnode hvisits) hg

/-- A write that moves no step and leaves the row where it stands. -/
theorem AsksOk.rewrites (hf : AsksOk specs f) {onStep : StepRun → StepRun}
    (h : Rewrites f g onStep) (hstatus : ∀ s, (onStep s).status = s.status)
    (hversion : g.row.version = f.row.version)
    (hnode : g.row.currentNode = f.row.currentNode) (hvisits : g.row.visits = f.row.visits)
    (hopen : g.row.state.isOpen = f.row.state.isOpen) : AsksOk specs g where
  records ho := (hf.records (hopen ▸ ho)).rewrites h
  standing ho := (hf.standing (hopen ▸ ho)).steady h hstatus hversion hnode hvisits
  ended hclosed := by
    obtain ⟨onApproval, happrovals, hsame⟩ := h.approvals
    rw [happrovals]
    intro a ha
    obtain ⟨b, hb, rfl⟩ := List.mem_map.1 ha
    have hdecided := hf.ended (hopen ▸ hclosed) b hb
    rwa [(hsame b).decided hdecided]

end Ends

/-! ### Waits that are opened -/

section OpenWait

variable {specs : Nat → Option JourneySpec} {f : EnrollmentFile} {run : Nat} {wait : WaitSpec}
  {clock : Instant}

theorem waitsOf_openWait (f : EnrollmentFile) (run : Nat) (wait : WaitSpec) (clock : Instant)
    (run' : Nat) :
    (f.openWait run wait clock).waitsOf run' = f.waitsOf run' ++
      if run = run' ∧ wait.kind ≠ .conversationClose then [f.newWait run wait clock] else [] := by
  have hwaits : (f.openWait run wait clock).waits = f.waits ++ [f.newWait run wait clock] := rfl
  have hrun : (f.newWait run wait clock).stepRunId = run := rfl
  have hkind : (f.newWait run wait clock).kind = wait.kind := rfl
  unfold EnrollmentFile.waitsOf
  rw [hwaits, List.filter_append, List.filter_singleton, hrun, hkind]
  by_cases heq : run = run' <;> by_cases hclose : wait.kind = .conversationClose <;>
    simp [heq, hclose]

/-- **A wait is opened**: by a reply, or by a step while no other wait is open; one that asks is the
first of its step. -/
theorem RecordsOk.openWait (hf : RecordsOk f) (hrun : run < f.nextId)
    (htype : wait.kind.asks = true → ∃ s ∈ f.steps, s.id = run ∧ wait.kind.Of s.nodeType)
    (hnone : wait.kind ≠ .conversationClose → f.openWaits = [])
    (hfirst : wait.kind.asks = true → f.waitsOf run = [])
    (hnamed : wait.kind = .approval → ∃ a ∈ f.approvals, a.stepRunId = run ∧
      wait.payload = [("approvalId", .str (toString a.id))]) :
    RecordsOk (f.openWait run wait clock) := by
  have hmem : ∀ {P : JourneyWait → Prop}, (∀ w ∈ f.waits, P w) → P (f.newWait run wait clock) →
      ∀ w ∈ (f.openWait run wait clock).waits, P w :=
    fun hold hnew => List.forall_mem_append.2 ⟨hold, List.forall_mem_singleton.2 hnew⟩
  refine
    { ids := hf.ids, keys := hf.keys, fresh := fun s hs => Nat.lt_succ_of_lt (hf.fresh s hs)
      waitFresh := hmem (fun w hw => Nat.lt_succ_of_lt (hf.waitFresh w hw)) (Nat.lt_succ_of_lt hrun)
      waitType := hmem hf.waitType htype
      asksFirst := hmem (fun w hw hasks => ?_) fun hasks => ?_
      named := hmem hf.named hnamed
      approvalFresh := fun a ha => Nat.lt_succ_of_lt (hf.approvalFresh a ha)
      approvalIds := hf.approvalIds, approvalRuns := hf.approvalRuns
      approvalType := hf.approvalType }
  · obtain ⟨rest, hrest, hlater, hopen⟩ := hf.asksFirst w hw hasks
    unfold EnrollmentFile.AsksFirst
    rw [waitsOf_openWait, hrest]
    split
    · rename_i h
      -- A later wait of the step: the first is resolved, and the new one does not ask.
      refine ⟨rest ++ [f.newWait run wait clock], rfl, fun w' hw' => ?_, fun hw' => ?_⟩
      · rcases List.mem_append.1 hw' with hw' | hw'
        · exact hlater w' hw'
        · rw [List.mem_singleton.1 hw']
          refine Bool.eq_false_iff.2 fun hnew => ?_
          have hempty := hfirst hnew
          rw [h.1, hrest] at hempty
          cases hempty
      · have hmem' : w ∈ f.openWaits := List.mem_filter.2 ⟨hw, hw'⟩
        simp [hnone h.2] at hmem'
    · exact ⟨rest, List.append_nil _, hlater, hopen⟩
  · have hstep : wait.kind ≠ .conversationClose := by
      intro hclose
      have hno : (f.newWait run wait clock).kind.asks = WaitKind.asks .conversationClose :=
        congrArg _ hclose
      rw [hno] at hasks
      cases hasks
    refine ⟨[], ?_, fun w' hw' => absurd hw' List.not_mem_nil, fun _ => rfl⟩
    have hrun' : (f.newWait run wait clock).stepRunId = run := rfl
    rw [hrun', waitsOf_openWait, if_pos ⟨rfl, hstep⟩, hfirst hasks, List.nil_append]

/-- A reply's wait moves no step. -/
theorem StandingOk.openReply (hf : StandingOk specs f) (hkind : wait.kind = .conversationClose) :
    StandingOk specs (f.openWait run wait clock) := by
  refine
    { counted := hf.counted, entered := hf.entered, current := hf.current
      resumable := hf.resumable, typed := hf.typed, retrying := hf.retrying
      waiting := fun s hs hwaiting => ?_, asking := fun w hw hopen hasks => ?_ }
  · rw [waitsOf_openWait, if_neg fun h => h.2 hkind, List.append_nil]
    exact hf.waiting s hs hwaiting
  · rcases List.mem_append.1 hw with hw | hw
    · exact hf.asking w hw hopen hasks
    · have hno : w.kind.asks = WaitKind.asks .conversationClose := by
        rw [List.mem_singleton.1 hw, ← hkind]
        rfl
      rw [hno] at hasks
      cases hasks

end OpenWait

end Munin
