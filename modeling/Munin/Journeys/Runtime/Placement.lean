import Munin.Journeys.Runtime.AnsweredSteps

/-!
# Where a run stands

The validator follows the edges that `journeyNodeEdges` lists; the runtime takes each node's edges
from the node itself. They agree, so that a run of a spec which the validator accepts always stands
at one of its nodes.

* **`Outcome.Within`** — an outcome that leads along an edge which the validator has checked.
* **`Outcome.Reaches`** — also of the steps that are replayed.
* **`PlaceCase`** — where a step of the runtime leaves a run: where it was, at its end, at the
  target of an edge, or at a node of another version.
* **`valid_spec_never_stuck`** — no run of a valid spec looks for a node that is not there.
-/

namespace Munin

open Foundations

/-! ### The edges that an execution takes -/

/-- The reasons that the executions of steps give for an end, short of exit nodes. -/
def stepExits : List String :=
  ["wait_timeout", "goal_reached", "action_failed", "no_contact", "no_recipients",
    "message_blocked", "message_failed", "proposal_dismissed", "approval_rejected",
    "approval_timeout"]

/-- An outcome that leads along one of the edges of its node, under its label, or to the end, and
that ends a run for a reason of its own. -/
def Outcome.Within (node : JourneyNode) : Outcome → Prop
  | .advance edge to' _ _ => ∀ id, to' = some id → id ≠ "" → ⟨edge, id⟩ ∈ journeyNodeEdges node
  | .exit reason _ => reason ∈ stepExits ∨ ∃ n, node = .exit n ∧ reason = n.reason
  | .wait .. | .retry .. => True

variable {node : JourneyNode} {id : NodeId} {outcome : Outcome}

theorem within_exit {reason : String} (output : Option Record)
    (h : reason ∈ stepExits) : (Outcome.exit reason output).Within node :=
  .inl h

theorem edge_mem_edgeTo {label : String} {to' : Option NodeId} (h : to' = some id)
    (hne : id ≠ "") : ⟨label, id⟩ ∈ edgeTo label to' := by
  rw [h, edgeTo, if_neg hne]
  exact List.mem_singleton_self _

section Edges

variable {node : JourneyNode} {to' : Option NodeId}

theorem within_next (reason : Option String) (output : Option Record)
    (h : ∀ e ∈ edgeTo "next" to', e ∈ journeyNodeEdges node) :
    (Outcome.next to' reason output).Within node :=
  fun _ hid hne => h _ (edge_mem_edgeTo hid hne)

theorem within_advance {edge : String} (output : Option Record) (reason : Option String)
    (h : ∀ e ∈ edgeTo edge to', e ∈ journeyNodeEdges node) :
    (Outcome.advance edge to' output reason).Within node :=
  fun _ hid hne => h _ (edge_mem_edgeTo hid hne)

@[simp]
theorem within_requestAgent (env : StepEnv) (step : StepContext) (timeout : String)
    (output : Record) (reason : String) :
    (requestAgent env step timeout output reason).Within node := by
  unfold requestAgent
  split <;> trivial

end Edges

section Messages

variable (env : StepEnv) (step : StepContext) (n : MessageNode)

variable {e : NodeEdge}

theorem next_mem_message (h : e ∈ edgeTo "next" n.next) : e ∈ journeyNodeEdges (.message n) := by
  simp only [journeyNodeEdges, List.mem_append]
  exact .inl (.inl (.inl h))

theorem reply_mem_message (h : e ∈ edgeTo "on_reply" n.onReply) :
    e ∈ journeyNodeEdges (.message n) := by
  simp only [journeyNodeEdges, List.mem_append]
  exact .inl (.inl (.inr h))

theorem unseen_mem_message (h : e ∈ edgeTo "on_unseen" n.onUnseen) :
    e ∈ journeyNodeEdges (.message n) := by
  simp only [journeyNodeEdges, List.mem_append]
  exact .inr h

/-- An outcome of a call is looked up under the name that its edge has. -/
theorem outcome_mem_message {outcome : String}
    (h : e ∈ edgeTo ("outcome_" ++ outcome) (n.outcomeEdge outcome)) :
    e ∈ journeyNodeEdges (.message n) := by
  unfold MessageNode.outcomeEdge at h
  cases hfind : CallOutcome.all.find? (·.text = outcome) with
  | none =>
    rw [hfind] at h
    cases h
  | some o =>
    have htext : o.text = outcome := by simpa using List.find?_some hfind
    rw [hfind, Option.bind_some, ← htext] at h
    simp only [journeyNodeEdges, List.mem_append]
    exact .inl (.inr (List.mem_flatMap.2 ⟨o, List.mem_of_find?_eq_some hfind, h⟩))

theorem within_message_next (reason : Option String) (output : Option Record) :
    (Outcome.next n.next reason output).Within (.message n) :=
  within_next reason output fun _ => next_mem_message n

theorem within_awaitChatSeen (previous : Record) (proposalId : Option Json) :
    (awaitChatSeen env n previous proposalId).Within (.message n) := by
  unfold awaitChatSeen
  dsimp only
  split
  · exact within_message_next n _ _
  · trivial

theorem within_companyMessageOutcome (resolution : Option String) :
    (companyMessageOutcome env step n resolution).Within (.message n) := by
  unfold companyMessageOutcome
  dsimp only
  split
  · trivial
  · split
    · exact within_message_next n _ _
    · split
      · exact within_exit _ (by decide)
      · split <;> exact within_exit _ (by decide)

theorem within_sendMessage (previous : Record) (f : EnrollmentFile) :
    (sendMessage env step n previous f).2.Within (.message n) := by
  unfold sendMessage
  split
  · exact within_message_next n _ _
  · split
    · exact within_exit _ (by decide)
    · dsimp only
      split
      · split
        · exact within_awaitChatSeen env n previous (some (.str _))
        · exact within_message_next n _ _
      · exact within_exit _ (by decide)
      · trivial

/-- An alternative that is taken if it is there, and `next` if not. -/
theorem within_orNext {edge : String} {to' : Option NodeId}
    (h : ∀ e ∈ edgeTo edge to', e ∈ journeyNodeEdges (.message n)) (output : Option Record)
    (reason : Option String) :
    (Outcome.advance (if truthy to' then edge else "next") (to'.orElse fun _ => n.next) output
      reason).Within (.message n) := by
  intro id hid hne
  cases to' with
  | none => exact next_mem_message n (edge_mem_edgeTo hid hne)
  | some target =>
    obtain rfl : target = id := Option.some.inj hid
    have htruthy : truthy (some target) = true := by simp [truthy, hne]
    rw [if_pos htruthy]
    exact h _ (edge_mem_edgeTo rfl hne)

theorem within_resumeMessage (previous : Record) (wait : JourneyWait) :
    (resumeMessage env step n previous wait).Within (.message n) := by
  unfold resumeMessage
  split
  · refine within_orNext n (fun e he => ?_) _ _
    split at he
    · cases he
    · exact unseen_mem_message n he
  · split
    · exact within_orNext n (fun e he => outcome_mem_message n he) _ _
    · split
      · split
        · trivial
        · exact within_awaitChatSeen env n previous _
        · exact within_message_next n _ _
        · exact within_message_next n _ _
      · exact within_message_next n _ _
      · exact within_exit _ (by decide)
      · exact within_exit _ (by decide)
      · exact within_exit _ (by decide)

theorem within_executeMessage (f : EnrollmentFile) :
    (executeMessage env step n f).2.Within (.message n) := by
  unfold executeMessage
  dsimp only
  split
  · unfold executeCompanyMessage
    split
    · exact within_companyMessageOutcome env step n _
    · split
      · exact within_message_next n _ _
      · split
        · exact within_exit _ (by decide)
        · exact within_companyMessageOutcome env step n _
  · split
    · split
      · split
        · exact within_message_next n _ _
        · exact within_requestAgent env step _ _ _
      · exact within_sendMessage env step n _ _
    · split
      · exact within_resumeMessage env step n _ _
      · exact within_sendMessage env step n _ _

end Messages

/-- A value of a list of pairs, as an edge under its key. -/
theorem mem_edges_of_lookup {edges : List (String × NodeId)} {edge : String}
    (h : edges.lookup edge = some id) (hne : id ≠ "") :
    ⟨edge, id⟩ ∈ edges.flatMap fun e => edgeTo e.1 (some e.2) := by
  obtain ⟨before, after, rfl, -⟩ := List.lookup_eq_some_iff.1 h
  exact List.mem_flatMap.2 ⟨(edge, id), by simp, edge_mem_edgeTo rfl hne⟩

/-- The path that a bucket takes is one of the paths. -/
theorem pathOfBucket_mem {bucket : Nat} {paths : List SplitPath} {path : SplitPath}
    {cumulative : Nat} (h : pathOfBucket bucket cumulative paths = some path) : path ∈ paths := by
  induction paths generalizing cumulative with
  | nil => cases h
  | cons p ps ih =>
    rw [pathOfBucket] at h
    split at h
    · cases h
      exact List.mem_cons_self
    · split at h
      · rename_i q hq
        cases h
        exact List.mem_cons_of_mem _ (ih hq)
      · cases h
        exact List.mem_cons_self

theorem sampleFull_mem {n : SplitNode} {arrivals : Nat} {control : SplitPath}
    (h : n.sampleFull arrivals = some control) : control ∈ n.paths := by
  unfold SplitNode.sampleFull at h
  split at h
  · rename_i path size hpath _
    split at h
    · cases h
      obtain ⟨name, -, hfind⟩ := Option.bind_eq_some_iff.1 hpath
      exact List.mem_of_find?_eq_some hfind
    · cases h
  · cases h

theorem within_executeSplit {env : StepEnv} {step : StepContext} {n : SplitNode}
    (h : executeSplit env step n = .ok outcome) :
    outcome.Within (.split n) := by
  have hpath : ∀ path ∈ n.paths, ∀ output reason,
      (Outcome.advance path.name (some path.next) output reason).Within (.split n) :=
    fun path hmem _ _ => within_advance _ _ fun _ he => List.mem_flatMap.2 ⟨path, hmem, he⟩
  unfold executeSplit at h
  dsimp only at h
  split at h
  · rename_i control hcontrol
    cases h
    exact hpath control (sampleFull_mem hcontrol) _ _
  · split at h
    · rename_i path hbucket
      cases h
      exact hpath path (pathOfBucket_mem hbucket) _ _
    · cases h

theorem within_executeAgent (env : StepEnv) (step : StepContext) (n : AgentNode) :
    (executeAgent env step n).Within (.agent n) := by
  have hlookup : ∀ edge output reason,
      (Outcome.advance edge ((n.edges.getD []).lookup edge) output reason).Within (.agent n) :=
    fun edge _ _ id hid hne => List.mem_append_left _ (mem_edges_of_lookup hid hne)
  unfold executeAgent
  dsimp only
  split
  · exact within_next _ _ fun e he => List.mem_append_right _ he
  · exact within_requestAgent env step _ _ _
  · split
    · exact hlookup _ _ _
    · exact hlookup _ _ _
  · exact within_requestAgent env step _ _ _

theorem within_executeApproval (env : StepEnv) (step : StepContext) (n : ApprovalNode)
    (f : EnrollmentFile) : (executeApproval env step n f).2.Within (.approval n) := by
  unfold executeApproval
  split
  · split
    · exact within_next _ _ fun e he => List.mem_append_left _ (List.mem_append_left _ he)
    · split
      · dsimp only
        split
        · exact within_advance _ _ fun e he => List.mem_append_left _ (List.mem_append_right _ he)
        · exact within_exit _ (by decide)
      · dsimp only
        split
        · exact within_advance _ _ fun e he => List.mem_append_right _ he
        · exact within_exit _ (by decide)
  · trivial

theorem within_executeSubJourney (env : StepEnv) (step : StepContext) (n : SubJourneyNode)
    (f : EnrollmentFile) : (executeSubJourney env step n f).2.Within (.subJourney n) := by
  have hnext : ∀ reason output, (Outcome.next n.next reason output).Within (.subJourney n) :=
    fun _ _ => within_next _ _ fun e he => List.mem_append_left _ he
  unfold executeSubJourney
  dsimp only
  split
  · dsimp only
    split
    · split
      · exact within_advance _ _ fun e he => List.mem_append_right _ he
      · exact hnext _ _
    · exact hnext _ _
  · split
    · exact hnext _ _
    · split
      · exact hnext _ _
      · split
        · exact hnext _ _
        · dsimp only
          split
          · exact hnext _ _
          · trivial

/-- **The runtime takes the edges that the validator checks**: every execution of a node leads along
one of them, under its label, or to the end. -/
theorem within_execute {env : StepEnv} {step : StepContext}
    {f g : EnrollmentFile} (h : execute env step node f = .ok (g, outcome)) :
    outcome.Within node := by
  cases node with
  | wait n =>
    cases h
    unfold executeWait
    split
    · exact within_next _ _ fun e he => he
    · split
      · exact within_next _ _ fun e he => he
      · dsimp only
        split
        · exact within_next _ _ fun e he => he
        · trivial
  | waitFor n =>
    cases h
    unfold executeWaitFor
    split
    · split
      · exact within_next _ _ fun e he => List.mem_append_left _ he
      · split
        · exact within_advance _ _ fun e he => List.mem_append_right _ he
        · exact within_exit _ (by decide)
    · trivial
  | branch n =>
    cases h
    unfold executeBranch
    split
    · rename_i rule index hfind
      have hmem : (rule, index) ∈ n.rules.zipIdx := List.mem_of_find?_eq_some hfind
      exact within_advance _ _ fun e he =>
        List.mem_append_left _ (List.mem_flatMap.2 ⟨_, hmem, he⟩)
    · exact within_advance _ _ fun e he => List.mem_append_right _ he
  | split n =>
    simp only [execute] at h
    cases hsplit : executeSplit env step n with
    | error e => simp [hsplit, Except.map] at h
    | ok o =>
      rw [hsplit] at h
      cases h
      exact within_executeSplit hsplit
  | goal n =>
    cases h
    split
    · exact within_exit _ (by decide)
    · exact within_next _ _ fun e he => he
  | jump n =>
    cases h
    exact within_advance _ _ fun e he => he
  | exit n =>
    cases h
    exact .inr ⟨n, rfl, rfl⟩
  | action n =>
    cases h
    unfold executeAction
    split
    · exact within_next _ _ fun e he => he
    · split
      · trivial
      · split
        · exact within_exit _ (by decide)
        · exact within_next _ _ fun e he => he
  | message n =>
    obtain rfl := congrArg Prod.snd (Except.ok.inj h)
    exact within_executeMessage env step n f
  | agent n =>
    cases h
    exact within_executeAgent env step n
  | approval n =>
    obtain rfl := congrArg Prod.snd (Except.ok.inj h)
    exact within_executeApproval env step n f
  | subJourney n =>
    obtain rfl := congrArg Prod.snd (Except.ok.inj h)
    exact within_executeSubJourney env step n f

/-- An outcome that leads to the target of one of the edges of its node, or to the end. -/
def Outcome.Reaches (node : JourneyNode) : Outcome → Prop
  | .advance _ to' _ _ => ∀ id, to' = some id → id ≠ "" → ∃ e ∈ journeyNodeEdges node, e.to' = id
  | .wait .. | .exit .. | .retry .. => True

theorem Outcome.Within.reaches (h : outcome.Within node) : outcome.Reaches node := by
  cases outcome with
  | advance edge to' output reason => exact fun id hid hne => ⟨_, h id hid hne, rfl⟩
  | wait | exit | retry => trivial

/-- What is looked up for a stored label is the target of an edge, whatever the label. -/
theorem edgeTarget_mem {edge : String} (h : edgeTarget node edge = some id) (hne : id ≠ "") :
    ∃ e ∈ journeyNodeEdges node, e.to' = id := by
  have hof : ∀ {label : String} {to' : Option NodeId}, to' = some id →
      (∀ e ∈ edgeTo label to', e ∈ journeyNodeEdges node) →
      ∃ e ∈ journeyNodeEdges node, e.to' = id :=
    fun hto hmem => ⟨_, hmem _ (edge_mem_edgeTo hto hne), rfl⟩
  cases node with
  | message n =>
    have hnext : n.next = some id → ∃ e ∈ journeyNodeEdges (.message n), e.to' = id :=
      fun hto => hof hto fun _ => next_mem_message n
    simp only [edgeTarget] at h
    split at h
    · cases hoc : n.outcomeEdge (.ofList (edge.toList.drop 8)) with
      | none => exact hnext (by simpa [hoc] using h)
      | some target =>
        rw [hoc] at h
        exact hof (hoc.trans h) fun _ => outcome_mem_message n
    · split at h
      · cases hunseen : n.onUnseen with
        | none => exact hnext (by simpa [hunseen] using h)
        | some target =>
          rw [hunseen] at h
          exact hof (hunseen.trans h) fun _ => unseen_mem_message n
      · split at h
        · exact hof h fun _ => reply_mem_message n
        · exact hnext h
  | waitFor n =>
    simp only [edgeTarget] at h
    split at h
    · exact hof h fun e he => List.mem_append_right _ he
    · exact hof h fun e he => List.mem_append_left _ he
  | branch n =>
    simp only [edgeTarget] at h
    split at h
    · exact hof h fun e he => List.mem_append_right _ he
    · split at h
      · rename_i i _
        obtain ⟨rule, hrule, rfl⟩ := Option.map_eq_some_iff.1 h
        have hmem : (rule, i) ∈ n.rules.zipIdx := List.mem_zipIdx_iff_getElem?.2 hrule
        exact hof rfl fun e he => List.mem_append_left _ (List.mem_flatMap.2 ⟨_, hmem, he⟩)
      · cases h
  | split n =>
    obtain ⟨path, hpath, rfl⟩ := Option.map_eq_some_iff.1 h
    exact hof rfl fun e he => List.mem_flatMap.2 ⟨path, List.mem_of_find?_eq_some hpath, he⟩
  | jump n => exact hof h fun e he => he
  | approval n =>
    simp only [edgeTarget] at h
    split at h
    · exact hof h fun e he => List.mem_append_left _ (List.mem_append_right _ he)
    · split at h
      · exact hof h fun e he => List.mem_append_right _ he
      · exact hof h fun e he => List.mem_append_left _ (List.mem_append_left _ he)
  | subJourney n =>
    simp only [edgeTarget] at h
    split at h
    · exact hof h fun e he => List.mem_append_right _ he
    · exact hof h fun e he => List.mem_append_left _ he
  | action n | wait n | goal n => exact hof h fun e he => he
  | exit n | agent n => cases h

theorem reaches_storedOutcome (node : JourneyNode) (run : StepRun) :
    (storedOutcome node run).Reaches node := by
  unfold storedOutcome
  split
  · exact fun id hid hne => edgeTarget_mem hid hne
  · trivial

/-! ### Where a step leaves a run -/

/-- Where a step of the runtime leaves a run. -/
inductive PlaceCase (specs : Nat → Option JourneySpec) (moves : Prop) (f g : EnrollmentFile) : Prop
  | stays (hversion : g.row.version = f.row.version)
      (hnode : g.row.currentNode = f.row.currentNode)
      (hopen : g.row.state.isOpen = f.row.state.isOpen)
  | ended (hclosed : g.row.state.isOpen = false)
  /-- Along an edge of a node: of the one where the run was, or of a message that was replied to. -/
  | followed (hversion : g.row.version = f.row.version) (spec : JourneySpec)
      (hspec : specs f.row.version = some spec) (source : JourneyNode)
      (hsource : source ∈ spec.nodes)
      (hfrom : f.row.currentNode = some source.id ∨ ∃ run ∈ f.steps, run.nodeId = source.id)
      (e : NodeEdge) (he : e ∈ journeyNodeEdges source) (hnode : g.row.currentNode = some e.to')
  | moved (hmoves : moves) (spec : JourneySpec) (hspec : specs g.row.version = some spec)
      (node : JourneyNode) (hmem : node ∈ spec.nodes) (hnode : g.row.currentNode = some node.id)

section Places

variable {specs : Nat → Option JourneySpec} {moves : Prop} {f g k : EnrollmentFile}
  {env : StepEnv} {spec : JourneySpec}

theorem Steady.place {touched : Nat → Prop} (h : Steady touched f g) :
    PlaceCase specs moves f g :=
  .stays h.version h.currentNode h.isOpen

theorem place_finish (k : EnrollmentFile) (reason : String) (clock : Instant) :
    PlaceCase specs moves f (k.finish reason clock) :=
  .ended (isOpen_finish k reason clock)

/-- A run that is at a node of a version. -/
structure AtNode (specs : Nat → Option JourneySpec) (f : EnrollmentFile) (spec : JourneySpec)
    (source : JourneyNode) : Prop where
  isOpen : f.row.state.isOpen = true
  inVersion : specs f.row.version = some spec
  mem : source ∈ spec.nodes
  current : f.row.currentNode = some source.id

/-- A file whose row is where that of another is. -/
structure SamePlace (f k : EnrollmentFile) : Prop where
  version : k.row.version = f.row.version
  currentNode : k.row.currentNode = f.row.currentNode
  isOpen : k.row.state.isOpen = f.row.state.isOpen

variable {source : JourneyNode}

theorem place_leave (hat : AtNode specs f spec source)
    (hk : SamePlace f k) {outcome : Outcome} (h : outcome.Reaches source) :
    PlaceCase specs moves f (k.leave env spec outcome).1 := by
  unfold EnrollmentFile.leave
  split
  · exact place_finish _ _ _
  · rename_i edge to' output reason
    split
    · exact place_finish _ _ _
    · rename_i id hid
      obtain ⟨hto, hne⟩ := Option.filter_eq_some_iff.1 hid
      obtain ⟨e, he, rfl⟩ := h id hto (of_decide_eq_true hne)
      exact .followed hk.version spec hat.inVersion source hat.mem (.inl hat.current) e he rfl
  · exact .stays hk.version hk.currentNode hk.isOpen
  · exact .stays hk.version hk.currentNode hk.isOpen

theorem place_settle (hat : AtNode specs f spec source)
    (hk : SamePlace f k) (run attempt : Nat) {outcome : Outcome} (h : outcome.Reaches source) :
    PlaceCase specs moves f (k.settle env spec run attempt outcome).1 := by
  have hdone : ∀ (patch : StepRun → StepRun) (outcome : Outcome), outcome.Reaches source →
      PlaceCase specs moves f ((k.updateStepRun run patch).leave env spec outcome).1 :=
    fun patch _ h => by
      have hpatched : SamePlace f (k.updateStepRun run patch) :=
        ⟨hk.version, hk.currentNode, hk.isOpen⟩
      exact place_leave hat hpatched h
  unfold EnrollmentFile.settle
  split
  · exact .stays hk.version hk.currentNode hk.isOpen
  · exact .stays hk.version hk.currentNode (hat.isOpen ▸ rfl)
  · exact hdone _ _ h
  · exact hdone _ _ h

theorem place_runNode {more : Bool} (h : f.runNode specs env = .ok (g, more)) :
    PlaceCase specs moves f g := by
  rcases EnrollmentFile.runNode_cases h with ⟨rfl, -⟩ | ⟨hactive, current, spec, hcurrent, hspec,
      ⟨reason, rfl, -⟩ | ⟨node, visit, hnode, -, -, hvisit⟩⟩
  · exact .stays rfl rfl rfl
  · exact place_finish _ _ _
  · obtain ⟨hid, -⟩ := node_eq_some hnode
    have hmem : node ∈ spec.nodes := List.mem_of_find?_eq_some hnode
    have hat : AtNode specs f spec node :=
      ⟨isOpen_iff.2 (.inl hactive), hspec, hmem, hid ▸ hcurrent⟩
    rcases EnrollmentFile.runVisit_cases hvisit with
      ⟨-, rfl, -⟩ | ⟨stored, -, -, hg⟩ | ⟨k, outcome, hexec, hg⟩
    · exact .stays rfl rfl rfl
    · rw [show g = _ from congrArg Prod.fst hg]
      exact place_leave hat ⟨rfl, rfl, rfl⟩ (reaches_storedOutcome node stored)
    · rw [show g = _ from congrArg Prod.fst hg]
      have hrow : (f.enterRun node visit).1.row = f.row := by
        unfold EnrollmentFile.enterRun
        split <;> rfl
      obtain ⟨thread, goal, hkept⟩ := (kept_execute hexec).row
      rw [hrow] at hkept
      refine place_settle hat ?_ _ _ (within_execute hexec).reaches
      exact ⟨by rw [hkept], by rw [hkept], by rw [hkept]⟩

/-- A file in the same place. -/
theorem PlaceCase.mono {moves' : Prop} {g' : EnrollmentFile} (h : PlaceCase specs moves f g)
    (hmoves : moves → moves') (hsame : SamePlace g g') : PlaceCase specs moves' f g' := by
  obtain ⟨hversion, hnode, hopen⟩ := hsame
  cases h with
  | stays hv hn ho => exact .stays (hversion.trans hv) (hnode.trans hn) (hopen.trans ho)
  | ended hclosed => exact .ended (hopen.trans hclosed)
  | followed hv spec hspec source hsource hfrom e he hn =>
    exact .followed (hversion.trans hv) spec hspec source hsource hfrom e he (hnode.trans hn)
  | moved hm spec hspec node hmem hn =>
    exact .moved (hmoves hm) spec (hversion ▸ hspec) node hmem (hnode.trans hn)

theorem place_clearErrors (h : PlaceCase specs moves f g) :
    PlaceCase specs moves f g.clearErrors := by
  unfold EnrollmentFile.clearErrors
  split
  · exact h.mono id ⟨rfl, rfl, rfl⟩
  · exact h

/-- A reply leads along `on_reply` of the message that it answers, or leaves the run where it is. -/
theorem place_handleReply {reply : Reply} {clock : Instant}
    (h : f.handleReply specs reply clock = some g) : PlaceCase specs moves f g := by
  rcases handleReply_eq_some h with
    rfl | ⟨hopen, spec, lastMessage, _, hspec, hstep, ⟨node, to', hnode, hreply, hne, rfl⟩ |
      ⟨_, -, rfl⟩⟩
  · exact .stays rfl rfl rfl
  · obtain ⟨hid, -⟩ := node_eq_some hnode
    have hmem : .message node ∈ spec.nodes := List.mem_of_find?_eq_some hnode
    exact .followed rfl spec hspec (.message node) hmem (.inr ⟨lastMessage, hstep, hid.symm⟩)
      ⟨"on_reply", to'⟩ (reply_mem_message node (edge_mem_edgeTo hreply hne)) rfl
  · exact .stays rfl rfl (hopen ▸ rfl)

/-- A move leads to a node of the version that it moves to. -/
theorem place_move {toVersion : Nat} {toSpec fromSpec : JourneySpec}
    {nodeMap : Option (List (NodeId × NodeId))} {seen : Enrollment} {held : Bool}
    {plan : EnrollmentFile.PlannedMove} (hmoves : moves) (hspec : specs toVersion = some toSpec)
    (hplan : EnrollmentFile.planMove fromSpec toSpec nodeMap seen held = some plan)
    (now : Instant) : PlaceCase specs moves f (f.move plan toVersion now) := by
  obtain ⟨node, hnode, hresumes⟩ : ∃ node, toSpec.node plan.to' = some node ∧
      (plan.resumes = true → plan.to' = plan.currentNode) := by
    unfold EnrollmentFile.planMove at hplan
    obtain ⟨from', -, hplan⟩ := Option.bind_eq_some_iff.1 hplan
    obtain ⟨to', -, hplan⟩ := Option.bind_eq_some_iff.1 hplan
    obtain ⟨node, hnode, hplan⟩ := Option.bind_eq_some_iff.1 hplan
    dsimp only at hplan
    split at hplan
    · cases hplan
    · cases hplan
      exact ⟨node, hnode, fun h => (of_decide_eq_true h).1⟩
  obtain ⟨hid, -⟩ := node_eq_some hnode
  have hmem : node ∈ toSpec.nodes := List.mem_of_find?_eq_some hnode
  rcases move_cases f plan toVersion now with
    hsame | ⟨-, hcurrent, -, _, ⟨hresume, hmove⟩ | hmove⟩
  · rw [hsame]
    exact .stays rfl rfl rfl
  · rw [hmove]
    refine .moved hmoves toSpec hspec node hmem ?_
    rw [hid, hresumes hresume]
    exact hcurrent
  · rw [hmove]
    exact .moved hmoves toSpec hspec node hmem (hid ▸ rfl)

/-- **Where a step on a file leaves its run.** -/
theorem place_apply {a : FileAct} (h : a.apply specs f = some g) :
    PlaceCase specs a.Moves f g := by
  have hsteady : ∀ {k}, Steady (fun _ => False) f k → PlaceCase specs a.Moves f k :=
    fun h => h.place
  cases a with
  | recordStepError message now clock =>
    rcases recordStepError_cases (recordStepError_of_apply h) with hk | ⟨k', -, rfl⟩
    · exact hsteady hk
    · exact place_finish k' _ _
  | reschedule now =>
    cases h
    exact .stays rfl rfl rfl
  | resolveWait id resolution cause clock =>
    cases h
    exact hsteady (steady_resolveWait f _ _ _ _)
  | event e clock =>
    cases h
    exact hsteady (steady_onEvent f e clock)
  | reply r clock => exact place_handleReply h
  | submit seen input clock => exact (steady_submit h).place
  | decideApproval id approve clock => exact hsteady (steady_decideApproval h)
  | rememberThread conversationId =>
    cases h
    unfold EnrollmentFile.rememberThread
    split <;> exact .stays rfl rfl rfl
  | markGoal clock =>
    cases h
    unfold EnrollmentFile.markGoal
    split <;> exact .stays rfl rfl rfl
  | finish reason clock =>
    cases h
    exact place_finish f _ _
  | move toVersion nodeMap seen held now =>
    obtain ⟨fromSpec, -, h⟩ := Option.bind_eq_some_iff.1 h
    obtain ⟨toSpec, hto, rfl⟩ := Option.map_eq_some_iff.1 h
    split
    · exact .stays rfl rfl rfl
    · rename_i plan hplan
      exact place_move trivial hto hplan now
  | resumeNode node clock =>
    cases h
    unfold EnrollmentFile.resumeNode
    split <;> exact .stays rfl rfl rfl
  | purgeTraces =>
    cases h
    unfold EnrollmentFile.purgeTraces
    split <;> exact .stays rfl rfl rfl

end Places

/-! ### Every run -/

/-- A spec that the validator accepts without errors. -/
def JourneySpec.Accepted (spec : JourneySpec) : Prop :=
  ∃ checkMessageMergeFields refs,
    (validateJourneySpec checkMessageMergeFields spec refs).valid = true

/-- An open run of an accepted version is at one of its nodes. -/
def EnrollmentFile.Placed (specs : Nat → Option JourneySpec) (f : EnrollmentFile) : Prop :=
  ∀ spec, specs f.row.version = some spec → spec.Accepted → f.row.state.isOpen = true →
    ∃ node ∈ spec.nodes, f.row.currentNode = some node.id

section Runs

variable {specs : Specs} {s t : RuntimeState} {a : RuntimeStep} {id : String}
  {f g : EnrollmentFile}

theorem placed_file {e : NewEnrollment} {spec : JourneySpec}
    (hspec : specs e.journeyId e.version = some spec) :
    (e.file spec).Placed (specs e.journeyId) := by
  intro spec' hspec' haccepted hopen
  obtain rfl : spec = spec' := Option.some.inj (hspec.symm.trans hspec')
  obtain ⟨check, refs, hvalid⟩ := haccepted
  obtain ⟨node, hmem, hstart⟩ := start_of_valid hvalid
  refine ⟨node, hmem, ?_⟩
  simp only [NewEnrollment.file] at hopen ⊢
  split at hopen
  · cases hopen
  · rename_i hheld
    rw [if_neg hheld, hstart]

/-- **Every step keeps a run at a node**: its edges lead to nodes, and so do moves. -/
theorem PlaceCase.placed {specs : Nat → Option JourneySpec} {moves : Prop}
    (h : PlaceCase specs moves f g) (hf : f.Placed specs) : g.Placed specs := by
  intro spec hspec haccepted hopen
  cases h with
  | stays hversion hnode hstays =>
    rw [hnode]
    exact hf spec (hversion ▸ hspec) haccepted (hstays ▸ hopen)
  | ended hclosed =>
    rw [hclosed] at hopen
    cases hopen
  | followed hversion spec' hspec' source hsource hfrom e he hnode =>
    obtain rfl : spec' = spec := Option.some.inj (hspec'.symm.trans (hversion ▸ hspec))
    obtain ⟨check, refs, hvalid⟩ := haccepted
    obtain ⟨node, hmem, hid⟩ := target_of_valid hvalid hsource he
    exact ⟨node, hmem, hid ▸ hnode⟩
  | moved hmoves spec' hspec' node hmem hnode =>
    obtain rfl : spec' = spec := Option.some.inj (hspec'.symm.trans hspec)
    exact ⟨node, hmem, hnode⟩

/-- A file that is a new enrollment's. -/
def NewFile (specs : Specs) (g : EnrollmentFile) : Prop :=
  ∃ (e : NewEnrollment) (spec : JourneySpec),
    specs e.journeyId e.version = some spec ∧ g = e.file spec

/-- A file that a step adds is a new enrollment's. -/
theorem file_new (h : (runtimeMachine specs).step s a = some t) (hnone : s.files id = none)
    (hg : t.files id = some g) : NewFile specs g := by
  have hinsert : ∀ {s' : RuntimeState} {e : NewEnrollment}, s'.files id = none →
      s'.insert specs e = some t → NewFile specs g := by
    intro s' e hnone' h
    obtain ⟨-, spec, hspec, hfile, hother, -⟩ := s'.insert_eq_some h
    by_cases hid : id = e.id
    · rw [hid, hfile] at hg
      exact ⟨e, spec, hspec, (Option.some.inj hg).symm⟩
    · rw [hother id hid, hnone'] at hg
      cases hg
  have hwrite : ∀ {s' : RuntimeState} {id' f' g' running}, s'.files id = none →
      s'.files id' = some f' → (s'.write id' f' g' running).files id = none := by
    intro s' id' f' g' running hnone' hf'
    by_cases hid : id = id'
    · rw [hid, hf'] at hnone'
      cases hnone'
    · rw [s'.files_write_of_ne hid, hnone']
  have habsurd : t.files id = none → NewFile specs g := by
    intro hnone'
    rw [hnone'] at hg
    cases hg
  change RuntimeState.step specs s a = some t at h
  cases a with
  | enroll e => exact hinsert hnone h
  | node id' env child running =>
    simp only [RuntimeState.step, RuntimeState.runNode] at h
    obtain ⟨f', hf', h⟩ := Option.bind_eq_some_iff.1 h
    split at h
    · cases h
    · split at h
      · cases h
        exact habsurd (hwrite hnone hf')
      · split at h
        · cases h
        · exact hinsert (hwrite hnone hf') h
  | act id' act running =>
    obtain ⟨f', hf', h⟩ := Option.bind_eq_some_iff.1 h
    obtain ⟨g', -, rfl⟩ := Option.map_eq_some_iff.1 h
    exact habsurd (hwrite hnone hf')
  | exited row eventId clock =>
    simp only [RuntimeState.step] at h
    split at h
    · split at h
      · rename_i f' parent hf' hparent
        cases h
        have hfile : s.files parent = some f' := by
          rw [hparent] at hf'
          exact hf'
        have hnone' : { s with inbox := s.inbox.erase row }.files id = none := hnone
        exact habsurd (hwrite hnone' hfile)
      · cases h
        exact habsurd hnone
    · cases h
  | giveUp row =>
    simp only [RuntimeState.step] at h
    split at h
    · cases h
      exact habsurd hnone
    · cases h

/-- The step moves this enrollment to another version. -/
def RuntimeStep.MovesRun (id : String) : RuntimeStep → Prop
  | .act id' a _ => id' = id ∧ a.Moves
  | .enroll _ | .node .. | .exited .. | .giveUp _ => False

/-- **Where a step of the runtime leaves each run.** -/
theorem place_step (hs : EveryFile (AsksAndWaits specs) s)
    (h : (runtimeMachine specs).step s a = some t) (hf : s.files id = some f) :
    ∃ g, t.files id = some g ∧ g.row.journeyId = f.row.journeyId ∧
      PlaceCase (specs f.row.journeyId) (a.MovesRun id) f g := by
  obtain ⟨g, hg, hstep⟩ := file_step h hf
  refine ⟨g, hg, ?_⟩
  cases hstep with
  | same heq =>
    subst heq
    exact ⟨rfl, .stays rfl rfl rfl⟩
  | node env child running more k ha hrun heq =>
    subst heq
    have hclear : NoNewAwait (specs f.row.journeyId) k k.clearErrors := noNewAwait_clearErrors k
    exact ⟨hclear.journey.trans (told_runNode (hs _ _ hf).1 hrun).1.journey,
      place_clearErrors (place_runNode hrun)⟩
  | act act running ha hact =>
    subst ha
    exact ⟨(noNewAwait_apply hact).journey,
      (place_apply hact).mono (fun hmoves => ⟨rfl, hmoves⟩) ⟨rfl, rfl, rfl⟩⟩
  | event event clock heq =>
    subst heq
    have hsteady : Steady (fun _ => False) f (f.onEvent event clock) := steady_onEvent f _ _
    have hevent : NoNewAwait (specs f.row.journeyId) f (f.onEvent event clock) :=
      noNewAwait_onEvent f event clock
    exact ⟨hevent.journey, hsteady.place⟩

/-- What every state keeps, with what it rests on. -/
def PlacedToo (specs : Specs) (s : RuntimeState) : Prop :=
  EveryFile (AsksAndWaits specs) s ∧ EveryFile (fun f => f.Placed (specs f.row.journeyId)) s

theorem placed_step (hs : PlacedToo specs s) (h : (runtimeMachine specs).step s a = some t) :
    PlacedToo specs t := by
  refine ⟨asksAndWaits_step hs.1 h, fun id g hg => ?_⟩
  cases hf : s.files id with
  | none =>
    obtain ⟨e, spec, hspec, rfl⟩ := file_new h hf hg
    exact placed_file hspec
  | some f =>
    obtain ⟨g', hg', hjourney, hplace⟩ := place_step hs.1 h hf
    obtain rfl := Option.some.inj (hg.symm.trans hg')
    rw [hjourney]
    exact hplace.placed (hs.2 id f hf)

theorem placed_reachable (h : (runtimeMachine specs).Reachable NoEnrollments s) :
    PlacedToo specs s := by
  refine h.invariant (I := PlacedToo specs) (fun s hs => ?_) fun s t a _ hs _ hstep =>
    placed_step hs hstep
  constructor <;> intro id f hf <;> rw [hs] at hf <;> cases hf

end Runs

/-- The run of the current node would end the enrollment because the node does not exist. -/
def EnrollmentFile.EndsMissing (specs : Nat → Option JourneySpec) (env : StepEnv)
    (f : EnrollmentFile) : Prop :=
  f.row.state = .active ∧ env.journeyLive = true ∧ ∃ current spec,
    f.row.currentNode.filter (· ≠ "") = some current ∧ specs f.row.version = some spec ∧
      spec.node current = none

/-- Where a step leaves a run of a spec: where it was, ended, or at the node of the spec that an
edge of another leads to. -/
inductive Goes (spec : JourneySpec) (f g : EnrollmentFile) : Prop
  | stays (hnode : g.row.currentNode = f.row.currentNode)
  | ended (hclosed : g.row.state.isOpen = false)
  | followed (source target : JourneyNode) (hsource : source ∈ spec.nodes)
      (hfrom : f.row.currentNode = some source.id ∨ ∃ run ∈ f.steps, run.nodeId = source.id)
      (htarget : target ∈ spec.nodes) (hedge : ∃ e ∈ journeyNodeEdges source, e.to' = target.id)
      (hnode : g.row.currentNode = some target.id)

/-- **A valid spec never gets stuck.** In every run of the runtime, a run of a version that the
validator accepts never looks for a node that is not there; no execution ends a run for the type of
its node; and every step that does not move it to another version leaves it where it was, ends it,
or leads it along an edge to a node of the spec. -/
theorem valid_spec_never_stuck {specs : Specs} {s : RuntimeState}
    (h : (runtimeMachine specs).Reachable NoEnrollments s) {id : String} {f : EnrollmentFile}
    (hf : s.files id = some f) {spec : JourneySpec}
    (hspec : specs f.row.journeyId f.row.version = some spec) (haccepted : spec.Accepted) :
    (∀ env, ¬ f.EndsMissing (specs f.row.journeyId) env) ∧
    (∀ env step node g k reason output, execute env step node g = .ok (k, .exit reason output) →
      reason ≠ "node_type_unavailable" ∨ ∃ n, node = .exit n ∧ reason = n.reason) ∧
    ∀ a t, (runtimeMachine specs).step s a = some t → ¬ a.MovesRun id →
      ∃ g, t.files id = some g ∧ Goes spec f g := by
  obtain ⟨hasks, hplaced⟩ := placed_reachable h
  refine ⟨?_, ?_, ?_⟩
  · rintro env ⟨hactive, -, current, spec', hcurrent, hspec', hnone⟩
    obtain rfl : spec = spec' := Option.some.inj (hspec.symm.trans hspec')
    obtain ⟨node, hmem, hnode⟩ := hplaced id f hf spec hspec haccepted (isOpen_iff.2 (.inl hactive))
    have hat : node.id = current :=
      Option.some.inj (hnode.symm.trans (Option.filter_eq_some_iff.1 hcurrent).1)
    exact List.find?_eq_none.1 hnone node hmem (decide_eq_true hat)
  · intro env step node g k reason output hexec
    refine (within_execute hexec).imp_left fun hexit => ?_
    rintro rfl
    exact absurd hexit (by decide)
  · intro a t hstep hmoves
    obtain ⟨g, hg, -, hplace⟩ := place_step hasks hstep hf
    refine ⟨g, hg, ?_⟩
    cases hplace with
    | stays hversion hnode hopen => exact .stays hnode
    | ended hclosed => exact .ended hclosed
    | followed hversion spec' hspec' source hsource hfrom e he hnode =>
      obtain rfl : spec' = spec := Option.some.inj (hspec'.symm.trans hspec)
      obtain ⟨check, refs, hvalid⟩ := haccepted
      obtain ⟨target, htarget, hid⟩ := target_of_valid hvalid hsource he
      exact .followed source target hsource hfrom htarget ⟨e, he, hid.symm⟩ (hid ▸ hnode)
    | moved hmoved => exact absurd hmoved hmoves

/-- A contact put into the journey that asks an agent. -/
def askState : RuntimeState :=
  ((runtimeMachine fun _ _ => some (sampleJourney (.agent askNode))).run {}
    [.enroll sampleEntry]).getD {}

theorem valid_spec_never_stuck_sample :
    ∃ f, askState.files "e1" = some f ∧ ∀ a t,
      (runtimeMachine fun _ _ => some (sampleJourney (.agent askNode))).step askState a = some t →
      ¬ a.MovesRun "e1" → ∃ g, t.files "e1" = some g ∧ Goes (sampleJourney (.agent askNode)) f g := by
  have haccepted : (sampleJourney (.agent askNode)).Accepted := ⟨fun _ => {}, {}, by decide⟩
  have hstart : NoEnrollments {} := rfl
  have hrun : (runtimeMachine fun _ _ => some (sampleJourney (.agent askNode))).run {}
      [.enroll sampleEntry] = some askState := rfl
  obtain ⟨f, hf⟩ : ∃ f, askState.files "e1" = some f := ⟨_, rfl⟩
  exact ⟨f, hf, (valid_spec_never_stuck (Machine.reachable_of_run hstart hrun) hf rfl
    haccepted).2.2⟩

end Munin
