import Munin.Journeys.Runtime.Execute
import Munin.Outreach.SendPolicy

/-!
# The simulator

`simulate` walks each contact of a sample through a spec without writing anything, and counts whom
it lets in, which nodes they come to, which edges they take and how they leave.

* **`simulateMessage`**, **`simulateStep`** — one node, with the decision of the send policy and
  what the walk assumes.
* **`walk`** — a contact's way, at most `MAX_STEPS` nodes long.
* **`simulate`** — the walks of a sample.

What the database says of contacts and segments are facts of a simulation, and so is the truth of
conditions. Rendered texts are left out.
-/

namespace Munin

open Foundations

def MAX_STEPS : Nat := 100

/-! ### Samples and facts -/

/-- `SampleContact`. -/
structure SampleContact where
  id : String
  name : Option String := none
  /-- `kind === 'company'`. -/
  company : Bool := false

/-- `sampleKey`. -/
def sampleKey (contact : SampleContact) : String :=
  if contact.company then "co:" ++ contact.id else "c:" ++ contact.id

/-- What a simulation finds. -/
structure SimulationFacts where
  now : Instant := 0
  policy : PolicyFacts := {}
  /-- `evaluateCondition`, on the facts of a contact or company that just entered. -/
  holds : SampleContact → JourneyCondition → Bool := fun _ _ => false
  companyRecipients : String → Option RecipientFilter → List String := fun _ _ => []
  /-- `contactInSegment` or `companyInSegment`. -/
  inSegment : SampleContact → String → Bool := fun _ _ => true

/-! ### Results -/

/-- `SimulatedMessage`, without its texts. -/
structure SimulatedMessage where
  nodeId : NodeId
  contactId : String
  contactName : Option String
  channel : ChannelType
  decision : String
  reason : Option String

/-- The codes of `SimulationAssumption`. -/
inductive AssumptionCode where
  | reviewerApproves | noReply | eventMissing | agentFallback | agentDraft | callReached | chatSeen
  | approvalGranted | subJourneyPassed

/-- `SimulationAssumption`. -/
structure SimulationAssumption where
  code : AssumptionCode
  nodeId : NodeId
  event : Option String := none
  timeout : Option String := none

/-- The assumptions by their keys. -/
abbrev Assumptions := List (String × SimulationAssumption)

/-- A record of counts. -/
abbrev Counts := List (String × Nat)

/-- The count of a key. -/
def Counts.at (counts : Counts) (key : String) : Nat := (counts.lookup key).getD 0

/-- `bump`. -/
def bump (counts : Counts) (key : String) : Counts :=
  setField counts key (counts.at key + 1)

theorem Counts.at_bump (counts : Counts) (key other : String) :
    (bump counts key).at other = counts.at other + if other = key then 1 else 0 := by
  unfold bump Counts.at
  by_cases h : other = key
  · subst h
    rw [lookup_setField_self, if_pos rfl]
    rfl
  · rw [lookup_setField_of_ne _ _ h, if_neg h, Nat.add_zero]

/-- `SimulationResult`, with its map of assumptions, and the people without a lawful basis by
node. -/
structure SimulationResult where
  size : Nat := 0
  entered : Nat := 0
  excluded : Counts := []
  arrivals : Counts := []
  edges : Counts := []
  exits : Counts := []
  messages : List SimulatedMessage := []
  messageDecisions : List (NodeId × Counts) := []
  assumptions : Assumptions := []
  withoutLawfulBasis : List (NodeId × List String) := []

namespace SimulationResult

variable (r : SimulationResult)

/-- The counts after a contact comes to a node. -/
def arrive (id : NodeId) : SimulationResult := { r with arrivals := bump r.arrivals id }

/-- The counts after a contact takes an edge. -/
def follow (id : NodeId) (label : String) : SimulationResult :=
  { r with edges := bump r.edges (id ++ "." ++ label) }

/-- The counts after a contact leaves. -/
def leave (exit : Option String) : SimulationResult :=
  { r with exits := bump r.exits (exit.getD "reached_end") }

/-- What a step adds beside the counts. The decisions at a node named `constructor` go to a property
that every object has, and are lost. -/
def note (contactId : String) (message : Option SimulatedMessage) (assumptions : Assumptions) :
    SimulationResult :=
  let r := { r with assumptions := assumptions.foldl (fun a x => setField a x.1 x.2) r.assumptions }
  match message with
  | none => r
  | some m =>
    { r with
      messages := if r.messages.length < 20 then r.messages ++ [m] else r.messages
      messageDecisions :=
        if m.nodeId = "constructor" then r.messageDecisions
        else setField r.messageDecisions m.nodeId
          (bump ((r.messageDecisions.lookup m.nodeId).getD []) m.decision)
      withoutLawfulBasis :=
        if m.reason = some "no_lawful_basis" then
          let people := (r.withoutLawfulBasis.lookup m.nodeId).getD []
          setField r.withoutLawfulBasis m.nodeId
            (if contactId ∈ people then people else people ++ [contactId])
        else r.withoutLawfulBasis }

end SimulationResult

/-! ### One node -/

/-- How the walk goes on from a node. -/
inductive SimulatedMove where
  | edge (label : String) (to' : Option NodeId)
  | exit (reason : String)
  deriving DecidableEq

/-- What `step` returns, and the assumptions it makes. -/
structure SimulatedStep where
  move : SimulatedMove
  message : Option SimulatedMessage := none
  assumptions : Assumptions := []

/-- `decision.decision`. -/
def SendDecision.text : SendDecision → String
  | .send => "send"
  | .defer _ _ => "defer"
  | .skip _ => "skip"

/-- The reason that is shown with a decision. -/
def SendDecision.shownReason : SendDecision → Option String
  | .send => none
  | .defer _ reason => some reason
  | .skip reason => some reason

/-- The policy that the simulator checks a message against. -/
def simulatorPolicy (settings : JourneySettings) (node : MessageNode) : SendPolicy where
  channel := some node.channel
  class' := node.messageClass
  timezone := settings.timezone
  quietHours := settings.quietHours
  validDays := settings.validDays
  frequencyCapPerWeek := settings.frequencyCapPerWeek
  cooldownHoursAfterConversation := settings.cooldownHoursAfterConversation

/-- An assumption about a node, under its key. -/
def assume (kind : String) (code : AssumptionCode) (id : NodeId) : String × SimulationAssumption :=
  (kind ++ ":" ++ id, { code, nodeId := id })

section Step

variable (facts : SimulationFacts) (spec : JourneySpec)

/-- The decision of the send policy that the simulator reports. -/
def simulatedDecision (node : MessageNode) (contactId : String) : SendDecision :=
  checkSendPolicy facts.policy (simulatorPolicy spec.settings node) facts.now contactId

/-- The message that a decision is reported with. -/
def simulatedMessage (node : MessageNode) (contactId : String) (name : Option String)
    (decision : SendDecision) : SimulatedMessage where
  nodeId := node.id
  contactId := contactId
  contactName := name
  channel := node.channel
  decision := decision.text
  reason := decision.shownReason

/-- The case `message` of `step`, for a contact and a message that is not switched off. -/
def simulateMessage (node : MessageNode) (contact : SampleContact) : SimulatedStep :=
  let decision := simulatedDecision facts spec node contact.id
  let message := simulatedMessage node contact.id contact.name decision
  let drafting :=
    (if node.approval = .draftOnly then [assume "approve" .reviewerApproves node.id] else []) ++
      if node.draftBy = some .agent then [assume "draft" .agentDraft node.id] else []
  if decision.text = "skip" then
    { move := .exit "message_blocked", message, assumptions := drafting }
  else if node.channel = .voice then
    let reached := (node.onOutcome.getD {}).get .reached
    { move := if truthy reached then .edge "outcome_reached" reached else .edge "next" node.next
      message
      assumptions := drafting ++ [assume "call" .callReached node.id] }
  else
    { move := .edge "next" node.next
      message
      assumptions := drafting ++
        (if node.channel = .chat then [assume "seen" .chatSeen node.id] else []) ++
        if truthy node.onReply then [assume "reply" .noReply node.id] else [] }

/-- `companyStep`. -/
def companyStep (node : MessageNode) (company : SampleContact) : SimulatedStep :=
  match facts.companyRecipients company.id node.recipients with
  | [] => { move := .exit "no_recipients" }
  | contactId :: others =>
    let reached := (contactId :: others).any fun id =>
      decide ((simulatedDecision facts spec node id).text ≠ "skip")
    { move := if reached then .edge "next" node.next else .exit "message_blocked"
      message := simulatedMessage node contactId company.name
        (simulatedDecision facts spec node contactId)
      assumptions :=
        if node.approval = .draftOnly then [assume "approve" .reviewerApproves node.id] else [] }

/-- `step`. -/
def simulateStep (journeyId : String) (node : JourneyNode) (contact : SampleContact) :
    SimulatedStep :=
  match node with
  | .message n =>
    if n.approval = .off then { move := .edge "next" n.next }
    else if contact.company then companyStep facts spec n contact
    else simulateMessage facts spec n contact
  | .wait n => { move := .edge "next" n.next }
  | .waitFor n =>
    { move := if truthy n.onTimeout then .edge "on_timeout" n.onTimeout else .exit "wait_timeout"
      assumptions := [("event:" ++ n.id,
        { code := .eventMissing, nodeId := n.id, event := n.event, timeout := n.timeout })] }
  | .branch n =>
    match n.rules.zipIdx.find? fun rule => facts.holds contact rule.1.condition with
    | some rule => { move := .edge (ruleLabel rule.2) rule.1.next }
    | none => { move := .edge "default" n.default }
  | .split n =>
    match pathOfBucket (stableBucket [sampleKey contact, journeyId, n.id]) 0 n.paths with
    | some path => { move := .edge path.name path.next }
    -- the schema admits no split without paths; reading the last one of none throws
    | none => { move := .exit "" }
  | .goal n => { move := if n.exitOnReach then .exit "goal_reached" else .edge "next" n.next }
  | .jump n => { move := .edge "jump" n.to' }
  | .exit n => { move := .exit n.reason }
  | .action n => { move := .edge "next" n.next }
  | .agent n =>
    match n.mode with
    | .enrich =>
      { move := .edge "next" n.next
        assumptions := [("agent:" ++ n.id,
          { code := .agentFallback, nodeId := n.id, event := some "next" })] }
    | .decide =>
      { move := .edge (n.fallback.getD "undefined")
          ((n.edges.getD []).lookup (n.fallback.getD "undefined"))
        assumptions := [("agent:" ++ n.id,
          { code := .agentFallback, nodeId := n.id, event := n.fallback })] }
  | .approval n =>
    { move := .edge "next" n.next, assumptions := [assume "approval" .approvalGranted n.id] }
  | .subJourney n =>
    { move := .edge "next" n.next
      assumptions := [("sub:" ++ n.id,
        { code := .subJourneyPassed, nodeId := n.id, event := n.journeyId })] }

end Step

/-! ### Walks -/

/-- `visits[id] > maxVisitsPerNode`, where what is no number is not greater. -/
def Visits.exceed (visits : Visits) (id : NodeId) (limit : Nat) : Bool :=
  match visits.get id with
  | some (.count n) => limit < n
  | _ => false

section Walk

variable (facts : SimulationFacts) (spec : JourneySpec) (journeyId : String)
  (contact : SampleContact)

/-- The loop over the nodes of a contact: the result after it, and the exit it found. An id that is
empty ends it like one that is missing. -/
def walk : Nat → Option NodeId → Visits → SimulationResult → SimulationResult × Option String
  | 0, _, _, r => (r, none)
  | _ + 1, none, _, r => (r, none)
  | steps + 1, some id, visits, r =>
    if id = "" then (r, none)
    else match spec.node id with
      | none => (r, some "node_missing")
      | some node =>
        let visits := visits.enter node.id
        if visits.exceed node.id spec.settings.maxVisitsPerNode then (r, some "loop_detected")
        else
          let step := simulateStep facts spec journeyId node contact
          let r := (r.arrive node.id).note contact.id step.message step.assumptions
          match step.move with
          | .exit reason => (r, some reason)
          | .edge label to' => walk steps to' visits (r.follow node.id label)

/-- `entryBlock`: why a contact does not enter, if so. -/
def entryBlock : Option String :=
  if spec.entry.segmentId.any fun id => id ≠ "" && !facts.inSegment contact id then
    some "not_in_segment"
  else if (match spec.entry.trigger with
      | .segment trigger => !facts.inSegment contact trigger.segmentId
      | _ => false) then
    some "not_in_segment"
  else if stableBucket [sampleKey contact, journeyId] < spec.settings.holdoutPct then
    some "holdout"
  else none

/-- One round of the loop over the sample. -/
def simulateContact (r : SimulationResult) : SimulationResult :=
  match entryBlock facts spec journeyId contact with
  | some reason => { r with excluded := bump r.excluded reason }
  | none =>
    let walked := walk facts spec journeyId contact MAX_STEPS spec.start []
      { r with entered := r.entered + 1 }
    walked.1.leave walked.2

/-- `simulate`, of the sample that was picked. -/
def simulate (sample : List SampleContact) : SimulationResult :=
  sample.foldl (fun r contact => simulateContact facts spec journeyId contact r)
    { size := sample.length }

end Walk

end Munin
