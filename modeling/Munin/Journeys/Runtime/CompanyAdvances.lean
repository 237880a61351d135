import Munin.Journeys.Runtime.CompanySteps

/-!
# A company's message step advances once

* **`AdvancesOnce`** — the law: what an event of the step finds, what resolves its wait, and what it
  is left with.
* **`Stage.advancesOnce`** — each stage of the step meets it, and every step keeps to the stages.
* **`company_step_advances_once`** — in every state reached from where an enrollment arrives at the
  message.
-/

namespace Munin

open Foundations

namespace CompanyState

variable {s t : CompanyState} {run : Nat}

/-! ### The law -/

/-- The step waits for its proposals. -/
def Waits (s : CompanyState) (run : Nat) : Prop :=
  ∃ u ∈ s.file.steps, u.id = run ∧ u.status = .waiting ∧ ∃ w ∈ s.file.openWaits, w.stepRunId = run

/-- The step waits no longer, and goes on with the next run of its node. -/
def Resumes (s : CompanyState) (run : Nat) : Prop :=
  s.file.row.state = .active ∧ ∃ u ∈ s.file.steps, u.id = run ∧ u.status = .waiting

/-- The step was left. -/
def Left (s : CompanyState) (run : Nat) : Prop :=
  ∃ u ∈ s.file.steps, u.id = run ∧ u.status = .completed

instance (s : CompanyState) (run : Nat) : Decidable (s.Left run) :=
  inferInstanceAs (Decidable (∃ u ∈ s.file.steps, _))

/-- How often a run leaves the step. -/
def leavings (specs : Nat → Option JourneySpec) (run : Nat) (s : CompanyState) :
    List CompanyAct → Nat
  | [] => 0
  | a :: as =>
    match s.step specs a with
    | none => 0
    | some t => (if ¬ s.Left run ∧ t.Left run then 1 else 0) + leavings specs run t as

/-- **How a company's message step advances**, in one state and the steps from there. -/
structure AdvancesOnce (specs : Nat → Option JourneySpec) (node : MessageNode) (run : Nat)
    (s : CompanyState) : Prop where
  /-- The step has not run yet, waits, goes on, or was left. -/
  stage : (∀ u ∈ s.file.steps, u.id ≠ run) ∨ s.Waits run ∨ s.Resumes run ∨ s.Left run
  /-- An event of the step finds its wait exactly once everyone is settled. -/
  finds : s.Waits run → ∀ e, s.Tells run e →
    ((s.waitOf e.proposalId).isSome = true ↔ s.Decided run)
  /-- Once everyone is settled, an event that was not handled yet tells of it. -/
  told : s.Waits run → s.Decided run → ∃ e ∈ s.inbox, s.Tells run e
  /-- Once the time is up, the sweep finds the wait. -/
  due : s.Waits run → ∃ w ∈ s.file.openWaits, w.stepRunId = run ∧ ∀ now,
    w.timeoutAt.any (· ≤ now) = true →
      ∃ t, s.step specs (.lookDue now) = some t ∧ .due w.id true now ∈ t.found
  /-- Whichever transaction resolves the wait, everyone is settled by then or the time is up. -/
  ends : s.Waits run → ∀ a t, s.step specs a = some t → ¬ t.Waits run →
    t.Resumes run ∧ ∃ r clock, a = .resolve r clock ∧ (s.Decided run ∨
      ∃ w ∈ s.file.openWaits, w.stepRunId = run ∧ ∃ now, r = .due w.id true now ∧
        w.timeoutAt.any (· ≤ now) = true)
  /-- The first one that does so wakes the step. -/
  wakes : s.Waits run → ∀ r ∈ s.found, ∀ clock, ∃ t,
    s.step specs (.resolve r clock) = some t ∧ t.Resumes run ∧ ¬ t.Waits run
  /-- The node that runs then leaves the step. -/
  goesOn : s.Resumes run → ∀ env, env.journeyLive = true → env.failure = none →
    Reads env s.outbox run → ∃ t, s.step specs (.run env) = some t ∧ Leaves node run s t
  /-- The step is left only with what the statuses of its proposals come to. -/
  leaves : ¬ s.Left run → ∀ a t, s.step specs a = some t → t.Left run → Leaves node run s t
  /-- What it was left with stays. -/
  stays : ∀ verdict, s.LeftWith run verdict → ∀ as t, (companyMachine specs).run s as = some t →
    t.LeftWith run verdict

section Law

variable {specs : Nat → Option JourneySpec} {spec : JourneySpec} {node : MessageNode}
  {visit : Nat} {env : StepEnv}

/-- The four stages. -/
inductive Stage (specs : Nat → Option JourneySpec) (spec : JourneySpec) (node : MessageNode)
    (visit run : Nat) (s : CompanyState) : Prop
  | entering (h : Entering specs spec node visit run s)
  | awaiting (h : Awaiting specs spec node visit run s)
  | woken (h : Woken specs spec node visit run s)
  | done (h : Done specs run s)

/-- **Every step keeps to the stages.** -/
theorem Stage.step (h : Stage specs spec node visit run s) {a : CompanyAct}
    (hstep : step specs s a = some t) : Stage specs spec node visit run t := by
  cases h with
  | entering hs =>
    rcases hs.step hstep with h | h | ⟨h, -⟩
    · exact .entering h
    · exact .awaiting h
    · exact .done h
  | awaiting hs =>
    rcases hs.step hstep with h | ⟨h, -⟩
    · exact .awaiting h
    · exact .woken h
  | woken hs =>
    rcases hs.step hstep with h | ⟨h, -⟩
    · exact .woken h
    · exact .done h
  | done hs =>
    obtain ⟨hkeeps, hwaits, hasks⟩ := hs.step_file hstep
    exact .done (hs.keeps hkeeps hwaits hasks)

/-! What each stage says of the step's row. -/

theorem Entering.no_row (hs : Entering specs spec node visit run s) :
    ∀ u ∈ s.file.steps, u.id ≠ run := by
  intro u hu
  have hlt := (hs.place.asks.records (isOpen_iff.2 (.inl hs.active))).fresh u hu
  rw [hs.next] at hlt
  exact Nat.ne_of_lt hlt

theorem WaitingRow.unique {f : EnrollmentFile} (h : WaitingRow node visit run f)
    (hrecords : RecordsOk f) {u : StepRun} (hu : u ∈ f.steps) (hid : u.id = run) :
    u.status = .waiting := by
  obtain ⟨v, hv, hvid, hwaiting, -⟩ := h
  rw [List.inj_on_of_nodup_map hrecords.ids hu hv (hid.trans hvid.symm), hwaiting]

theorem WaitingRow.not_left (h : WaitingRow node visit run s.file) (hrecords : RecordsOk s.file) :
    ¬ s.Left run := by
  rintro ⟨u, hu, hid, hdone⟩
  rw [h.unique hrecords hu hid] at hdone
  cases hdone

theorem Awaiting.isOpen (hs : Awaiting specs spec node visit run s) :
    s.file.row.state = .waiting := by
  obtain ⟨w, -, -, hopen, -⟩ := hs.wait
  exact hs.place.waits.state_of_open (hopen ▸ List.mem_singleton_self w)

theorem Awaiting.records (hs : Awaiting specs spec node visit run s) : RecordsOk s.file :=
  hs.place.asks.records (isOpen_iff.2 (.inr hs.isOpen))

theorem Woken.records (hs : Woken specs spec node visit run s) : RecordsOk s.file :=
  hs.place.asks.records (isOpen_iff.2 (.inl hs.active))

theorem Awaiting.waits (hs : Awaiting specs spec node visit run s) : s.Waits run := by
  obtain ⟨w, hw, -, hopen, -⟩ := hs.wait
  obtain ⟨u, hu, hid, hwaiting, -⟩ := hs.row
  exact ⟨u, hu, hid, hwaiting, w, hopen ▸ List.mem_singleton_self w, hw.ofRun⟩

theorem Woken.resumes (hs : Woken specs spec node visit run s) : s.Resumes run := by
  obtain ⟨u, hu, hid, hwaiting, -⟩ := hs.row
  exact ⟨hs.active, u, hu, hid, hwaiting⟩

theorem Woken.not_waits (hs : Woken specs spec node visit run s) : ¬ s.Waits run := by
  rintro ⟨-, -, -, -, w, hw, -⟩
  rw [hs.place.waits.active hs.active] at hw
  cases hw

theorem Done.left (hs : Done specs run s) : s.Left run := by
  obtain ⟨u, hu, hid⟩ := hs.row
  exact ⟨u, hu, hid, hs.completed u hu hid⟩

/-- A step that waits is in the stage that waits. -/
theorem Stage.of_waits (h : Stage specs spec node visit run s) (hw : s.Waits run) :
    Awaiting specs spec node visit run s := by
  cases h with
  | entering hs =>
    obtain ⟨u, hu, hid, -⟩ := hw
    exact absurd hid (hs.no_row u hu)
  | awaiting hs => exact hs
  | woken hs => exact absurd hw hs.not_waits
  | done hs =>
    obtain ⟨u, hu, hid, hwaiting, -⟩ := hw
    rw [hs.completed u hu hid] at hwaiting
    cases hwaiting

theorem Stage.of_resumes (h : Stage specs spec node visit run s) (hr : s.Resumes run) :
    Woken specs spec node visit run s := by
  obtain ⟨hactive, u, hu, hid, hwaiting⟩ := hr
  cases h with
  | entering hs => exact absurd hid (hs.no_row u hu)
  | awaiting hs => exact absurd (hs.isOpen.symm.trans hactive) (by decide)
  | woken hs => exact hs
  | done hs =>
    rw [hs.completed u hu hid] at hwaiting
    cases hwaiting

theorem Stage.of_left (h : Stage specs spec node visit run s) (hl : s.Left run) :
    Done specs run s := by
  cases h with
  | entering hs =>
    obtain ⟨u, hu, hid, -⟩ := hl
    exact absurd hid (hs.no_row u hu)
  | awaiting hs => exact absurd hl (hs.row.not_left hs.records)
  | woken hs => exact absurd hl (hs.row.not_left hs.records)
  | done hs => exact hs

variable {as : List CompanyAct}

/-- **A step that was left stays so**, with its edge and reason. -/
theorem Done.runs (hs : Done specs run s) (h : (companyMachine specs).run s as = some t) :
    Done specs run t ∧ ∀ verdict, s.LeftWith run verdict → t.LeftWith run verdict := by
  induction as generalizing s with
  | nil =>
    obtain rfl : s = t := Option.some.inj h
    exact ⟨hs, fun _ hleft => hleft⟩
  | cons a as ih =>
    obtain ⟨u, hu, ht⟩ := Option.bind_eq_some_iff.1 h
    obtain ⟨hkeeps, hwaits, hasks⟩ := hs.step_file (show s.step specs a = some u from hu)
    obtain ⟨hdone, hlater⟩ := ih (hs.keeps hkeeps hwaits hasks) ht
    exact ⟨hdone, fun verdict hleft => hlater verdict (hleft.keeps hkeeps)⟩

/-- **In each stage the step advances as it should.** -/
theorem Stage.advancesOnce (h : Stage specs spec node visit run s) :
    AdvancesOnce specs node run s where
  stage := by
    cases h with
    | entering hs => exact .inl hs.no_row
    | awaiting hs => exact .inr (.inl hs.waits)
    | woken hs => exact .inr (.inr (.inl hs.resumes))
    | done hs => exact .inr (.inr (.inr hs.left))
  finds hw e he := by
    have hs := h.of_waits hw
    obtain ⟨w, hwait, -, hopen, -⟩ := hs.wait
    refine ⟨fun hsome => ?_, fun hd => ?_⟩
    · obtain ⟨⟨v, named⟩, hv⟩ := Option.isSome_iff_exists.1 hsome
      exact (hwait.of_waitOf hopen hv).2.2
    · rw [hwait.waitOf_eq hopen hs.keyed hd he]
      rfl
  told hw hd := (h.of_waits hw).told hd
  due hw := by
    obtain ⟨w, hwait, -, hopen, -⟩ := (h.of_waits hw).wait
    refine ⟨w, hopen ▸ List.mem_singleton_self w, hwait.ofRun, fun now hnow => ⟨_, rfl, ?_⟩⟩
    refine List.mem_append_right _ (List.mem_map.2 ⟨w, ?_, ?_⟩)
    · rw [hopen]
      refine List.mem_filter.2 ⟨List.mem_singleton_self w, ?_⟩
      rw [CompanyState.due, hnow, Bool.or_true]
    · rw [hwait.wakeAt]
      rfl
  ends hw a t hstep hnot := by
    have hs := h.of_waits hw
    rcases hs.step hstep with h' | ⟨h', r, clock, rfl⟩
    · exact absurd h'.waits hnot
    · obtain ⟨w, hwait, -, hopen, hfound⟩ := hs.wait
      obtain ⟨hr, -⟩ := Option.ite_none_right_eq_some.1 hstep
      refine ⟨h'.resumes, r, clock, rfl, ?_⟩
      have hresolves := hfound r hr
      cases r with
      | event id e named => exact .inl hresolves.2.2
      | due id timedOut now =>
        obtain ⟨rfl, rfl, htime⟩ := hresolves
        exact .inr ⟨w, hopen ▸ List.mem_singleton_self w, hwait.ofRun, now, rfl, htime⟩
  wakes hw r hr clock := by
    have hstep : s.step specs (.resolve r clock) = some _ := if_pos hr
    have h' := (h.of_waits hw).resolve hstep
    exact ⟨_, hstep, h'.resumes, h'.not_waits⟩
  goesOn hr env hlive hfailure hreads := by
    have hs := h.of_resumes hr
    obtain ⟨t, hstep⟩ := hs.enabled hlive hfailure hreads
    rcases hs.runs hstep with ⟨hnot, -⟩ | ⟨-, -, hleaves⟩
    · rw [hlive] at hnot
      cases hnot
    · exact ⟨t, hstep, hleaves⟩
  leaves hnot a t hstep hleft := by
    cases h with
    | entering hs =>
      rcases hs.step hstep with h' | h' | ⟨-, hleaves⟩
      · obtain ⟨u, hu, hid, -⟩ := hleft
        exact absurd hid (h'.no_row u hu)
      · exact absurd hleft (h'.row.not_left h'.records)
      · exact hleaves
    | awaiting hs =>
      rcases hs.step hstep with h' | ⟨h', -⟩
      · exact absurd hleft (h'.row.not_left h'.records)
      · exact absurd hleft (h'.row.not_left h'.records)
    | woken hs =>
      rcases hs.step hstep with h' | ⟨-, hleaves⟩
      · exact absurd hleft (h'.row.not_left h'.records)
      · exact hleaves
    | done hs => exact absurd hs.left hnot
  stays verdict hleft as t hrun := by
    have hl : s.Left run := hleft.imp fun u hu => ⟨hu.1, hu.2.1, hu.2.2.1⟩
    exact ((h.of_left hl).runs hrun).2 verdict hleft

/-- A run that goes on after the step was left leaves it once in all. -/
theorem leavings_done (hs : Done specs run s)
    (h : (companyMachine specs).run s as = some t) : leavings specs run s as = 0 := by
  induction as generalizing s with
  | nil => rfl
  | cons a as ih =>
    obtain ⟨u, hu, ht⟩ := Option.bind_eq_some_iff.1 h
    have hu' : s.step specs a = some u := hu
    obtain ⟨hkeeps, hwaits, hasks⟩ := hs.step_file hu'
    rw [leavings, hu']
    dsimp only
    rw [if_neg (fun hnew => hnew.1 hs.left), ih (hs.keeps hkeeps hwaits hasks) ht]

/-- **Exactly once**: a run leaves the step once if it is left in the end, and else never. -/
theorem Stage.leavings_eq (h : Stage specs spec node visit run s) (hnot : ¬ s.Left run)
    (hrun : (companyMachine specs).run s as = some t) :
    leavings specs run s as = if t.Left run then 1 else 0 := by
  induction as generalizing s with
  | nil =>
    obtain rfl : s = t := Option.some.inj hrun
    rw [if_neg hnot]
    rfl
  | cons a as ih =>
    obtain ⟨u, hu, ht⟩ := Option.bind_eq_some_iff.1 hrun
    have hu' : s.step specs a = some u := hu
    rw [leavings, hu']
    dsimp only
    by_cases hleft : u.Left run
    · have hdone := (h.step hu').of_left hleft
      rw [if_pos ⟨hnot, hleft⟩, leavings_done hdone ht, if_pos (hdone.runs ht).1.left]
    · rw [if_neg (fun hnew => hleft hnew.2), Nat.zero_add, ih (h.step hu') hleft ht]

end Law

/-! ### From where the step begins -/

/-- An enrollment of a company that arrives at a message, in a state that the runtime reaches: no
event or sweep has found a wait of it, and the outbox has proposals of earlier steps at most. -/
structure Arrives (specs : Specs) (spec : JourneySpec) (node : MessageNode) (visit : Nat)
    (s : CompanyState) : Prop where
  reached : ∃ r id, (runtimeMachine specs).Reachable NoEnrollments r ∧ r.files id = some s.file
  active : s.file.row.state = .active
  inVersion : specs s.file.row.journeyId s.file.row.version = some spec
  conforms : spec.conforms = true
  isNode : spec.node node.id = some (.message node)
  current : s.file.row.currentNode = some node.id
  count : s.file.row.visits.current node.id = .count visit
  admitted : visit ≤ spec.settings.maxVisitsPerNode
  company : s.file.row.ofCompany = true
  approval : node.approval ≠ .off
  first : s.file.visitRun node.id visit = none
  nobody : s.found = []
  older : ∀ r ∈ s.outbox, r.stepRunId < s.file.nextId
  keyed : s.Keyed

theorem Arrives.entering {specs : Specs} {spec : JourneySpec} {node : MessageNode} {visit : Nat}
    (h : Arrives specs spec node visit s) :
    Entering (specs s.file.row.journeyId) spec node visit s.file.nextId s := by
  obtain ⟨r, id, hreach, hfile⟩ := h.reached
  obtain ⟨hwaits, hasks⟩ := asksAndWaits_reachable hreach id s.file hfile
  exact
    { place :=
        { waits := hwaits, asks := hasks, inVersion := h.inVersion, conforms := h.conforms
          isNode := h.isNode, current := h.current, count := h.count, admitted := h.admitted
          company := h.company, approval := h.approval }
      active := h.active, first := h.first, next := rfl, nobody := h.nobody, older := h.older
      keyed := h.keyed }

end CompanyState

open CompanyState in
/-- **A company's message step advances exactly once**, whatever happens in whatever order: decisions
on its proposals, their events, late, repeated or handled at the same time, the sweep of due waits,
and the node's runs. It goes on as soon as an event is handled after everyone is settled, or as its
time is up, and with what the statuses of the proposals come to, in any order. -/
theorem company_step_advances_once {specs : Specs} {spec : JourneySpec} {node : MessageNode}
    {visit : Nat} {s : CompanyState} (h : Arrives specs spec node visit s) {as : List CompanyAct}
    {t : CompanyState} (hrun : (companyMachine (specs s.file.row.journeyId)).run s as = some t) :
    AdvancesOnce (specs s.file.row.journeyId) node s.file.nextId t ∧
      leavings (specs s.file.row.journeyId) s.file.nextId s as =
        if t.Left s.file.nextId then 1 else 0 := by
  have hstart : Stage (specs s.file.row.journeyId) spec node visit s.file.nextId s :=
    .entering h.entering
  have hend : Stage (specs s.file.row.journeyId) spec node visit s.file.nextId t := by
    have hreach : (companyMachine (specs s.file.row.journeyId)).Reachable (· = s) t :=
      Machine.reachable_of_run rfl hrun
    exact hreach.invariant (fun u hu => hu ▸ hstart) fun u v a _ hu _ hstep => hu.step hstep
  refine ⟨hend.advancesOnce, hstart.leavings_eq ?_ hrun⟩
  rintro ⟨u, hu, hid, -⟩
  exact h.entering.no_row u hu hid

/-! ### A company with two recipients -/

/-- A message to two contacts of a company. -/
def companyNode : MessageNode where
  id := "news"
  content := { body := "Hello" }
  next := some "won"

def companySpecs : Specs := fun _ _ => some (sampleJourney (.message companyNode))

/-- A company that enters the journey. -/
def companyEntry : NewEnrollment where
  id := "e1"
  journeyId := "j1"
  version := 1
  companyId := some "co1"
  subjectKey := "co:co1"
  now := 0

def companyArrival : CompanyState where
  file := companyEntry.file (sampleJourney (.message companyNode))

/-- What the node finds: two recipients, whose proposals have these statuses. -/
def companyEnv (a b : ProposalStatus) : StepEnv where
  now := 0
  clock := 0
  companyRecipients := ["c1", "c2"]
  propose := fun contactId => { id := "p-" ++ contactId, status := .pending }
  runProposals := [⟨"p-c1", "c1", a, none⟩, ⟨"p-c2", "c2", b, none⟩]

/-- The decisions and their events: the first one finds nothing, as the other proposal is open. -/
def companyRun : List CompanyAct :=
  [.run (companyEnv .pending .pending),
    .decide ⟨"p-c2", "proposal_dismissed", none, none⟩ .dismissed,
    .look ⟨"p-c2", "proposal_dismissed", none, none⟩,
    .decide ⟨"p-c1", "proposal_sent", none, some .email⟩ .sent,
    .look ⟨"p-c1", "proposal_sent", none, some .email⟩,
    .look ⟨"p-c2", "proposal_dismissed", none, none⟩,
    .resolve (.event 1 ⟨"p-c2", "proposal_dismissed", none, none⟩ false) 5,
    .resolve (.event 1 ⟨"p-c1", "proposal_sent", none, some .email⟩ false) 6,
    .run (companyEnv .sent .dismissed)]

theorem arrives_companyArrival :
    CompanyState.Arrives companySpecs (sampleJourney (.message companyNode)) companyNode 1
      companyArrival where
  reached := by
    have hnone : NoEnrollments {} := rfl
    have hrun : (runtimeMachine companySpecs).run {} [.enroll companyEntry] =
        some { files := Function.update (fun _ => none) "e1" (some companyArrival.file) } := rfl
    exact ⟨_, "e1", Machine.reachable_of_run hnone hrun, rfl⟩
  active := by decide
  inVersion := rfl
  conforms := by decide
  isNode := rfl
  current := by decide
  count := by decide
  admitted := by decide
  company := by decide
  approval := by decide
  first := rfl
  nobody := rfl
  older _ hr := absurd hr List.not_mem_nil
  keyed := .nil

theorem company_step_advances_once_sample :
    ∃ t, (companyMachine (companySpecs "j1")).run companyArrival companyRun = some t ∧
      CompanyState.AdvancesOnce (companySpecs "j1") companyNode 0 t ∧
      CompanyState.leavings (companySpecs "j1") 0 companyArrival companyRun = 1 ∧
      CompanyState.Left t 0 := by
  obtain ⟨t, ht⟩ : ∃ t, (companyMachine (companySpecs "j1")).run companyArrival companyRun =
      some t := Option.isSome_iff_exists.1 (by decide +kernel)
  have hlaw := company_step_advances_once arrives_companyArrival ht
  have honce : CompanyState.leavings (companySpecs "j1") 0 companyArrival companyRun = 1 := by
    decide +kernel
  refine ⟨t, ht, hlaw.1, honce, ?_⟩
  by_contra hnot
  rw [show companyArrival.file.nextId = 0 from rfl, if_neg hnot] at hlaw
  exact absurd (honce.symm.trans hlaw.2) (by decide)

end Munin
