import Munin.Common
import Munin.Foundations.Instant

/-!
# Journey specs

A journey is a graph of steps that a contact walks through. Its spec is what an editor writes and
what a publication freezes. This file has the spec as `JourneySpecSchema` types it, with the
schema's defaults, and the edges of each kind of node. A text that is a duration stays a text and is
read by `parseIsoDurationMs`, as in the source.

* **`JourneyNode`** — the twelve kinds of node, one structure each.
* **`journeyNodeEdges`** — the labelled edges out of a node.
* **`JourneySpec.conforms`** — the bounds and patterns that the schema puts on the values.
-/

namespace Munin

open Foundations

/-! ### Names and durations -/

/-- Ids of nodes. -/
abbrev NodeId := String

/-- `NODE_ID_PATTERN`: lower case letters, digits and underscores, starting with a letter. -/
def isNodeId (s : String) : Bool :=
  match s.toList with
  | [] => false
  | c :: cs => c.isLower && cs.length ≤ 47 && cs.all fun c => c.isLower || c.isDigit || c == '_'

/-- The number that the leading digits write, and what follows them. -/
def readDigits : Nat → List Char → Nat × List Char
  | n, [] => (n, [])
  | n, c :: cs =>
    if c.isDigit then readDigits (10 * n + (c.toNat - 48)) cs else (n, c :: cs)

/-- An optional component of a duration: digits and their unit. -/
def durationPart (unit : Char) (cs : List Char) : Nat × List Char :=
  match readDigits 0 cs with
  | (n, c :: rest) => if c = unit && cs.head?.any Char.isDigit then (n, rest) else (0, cs)
  | (_, []) => (0, cs)

/-- `parseIsoDurationMs`: the length of a duration such as `P5D` or `PT2H`. -/
def parseIsoDurationMs (value : String) : Option Int :=
  match value.toList with
  | 'P' :: c :: cs =>
    let (weeks, r) := durationPart 'W' (c :: cs)
    let (days, r) := durationPart 'D' r
    match r with
    | [] => some ((weeks * 7 + days : Nat) * 24 * 60 * 60000)
    | 'T' :: r =>
      if r.head?.any Char.isDigit then
        let (hours, r) := durationPart 'H' r
        let (minutes, r) := durationPart 'M' r
        if r.isEmpty then
          some ((((weeks * 7 + days) * 24 + hours) * 60 + minutes : Nat) * 60000)
        else none
      else none
    | _ => none
  | _ => none

example : [parseIsoDurationMs "P5D", parseIsoDurationMs "P1WT2H30M", parseIsoDurationMs "PT",
    parseIsoDurationMs "P", parseIsoDurationMs "5D"] =
      [some 432000000, some 613800000, none, none, none] := by
  decide

/-! ### Conditions -/

/-- `CONDITION_OPERATORS`. -/
inductive ConditionOperator where
  | eq | neq | in' | notIn | contains | exists' | notExists | gt | gte | lt | lte

/-- `WEEKDAYS`. -/
inductive Weekday where
  | mon | tue | wed | thu | fri | sat | sun
  deriving DecidableEq

/-- Since when an event counts. -/
inductive EventSince where
  | entry
  | days (n : Nat)

/-- `JourneyCondition`. -/
inductive JourneyCondition where
  | all (conditions : List JourneyCondition)
  | any (conditions : List JourneyCondition)
  | not (condition : JourneyCondition)
  | field (field : String) (op : ConditionOperator) (value : Option Json)
  | context (path : String) (op : ConditionOperator) (value : Option Json)
  | tag (tag : String) (present : Option Bool)
  | event (event : String) (occurred : Option Bool) (since : Option EventSince)
      (minCount : Option Nat)
  | segment (segment : String) (member : Option Bool)
  | time (days : Option (List Weekday)) (between : Option String)

mutual

/-- The segments that `collectConditionNeeds` finds in a condition. -/
def JourneyCondition.segmentIds : JourneyCondition → List String
  | .all cs => segmentIdsOf cs
  | .any cs => segmentIdsOf cs
  | .not c => c.segmentIds
  | .segment segment _ => [segment]
  | .field .. | .context .. | .tag .. | .event .. | .time .. => []

/-- The segments of several conditions. -/
def segmentIdsOf : List JourneyCondition → List String
  | [] => []
  | c :: cs => c.segmentIds ++ segmentIdsOf cs

end

/-- Fields that an event's payload must have. -/
abbrev PayloadMatch := List (String × Json)

/-! ### Nodes -/

/-- `MESSAGE_CLASSES`. -/
inductive MessageClass where
  | marketing
  | transactional
  deriving DecidableEq

/-- `MESSAGE_APPROVAL_MODES`. -/
inductive ApprovalMode where
  | draftOnly
  | auto
  | off
  deriving DecidableEq

/-- The formats of a message's body. -/
inductive ContentFormat where
  | markdown
  | mjml
  deriving DecidableEq

/-- `AGENT_INPUTS`. -/
inductive AgentInput where
  | contact | company | reply | thread | events | context
  deriving DecidableEq

/-- As the spec writes it. -/
def AgentInput.text : AgentInput → String
  | .contact => "contact"
  | .company => "company"
  | .reply => "reply"
  | .thread => "thread"
  | .events => "events"
  | .context => "context"

/-- `draftBy`: a draft that is not written in the spec is written by an agent. -/
inductive DraftAuthor where
  | agent
  deriving DecidableEq

/-- The text of a message node. -/
structure MessageContent where
  subject : Option String := none
  preheader : Option String := none
  format : ContentFormat := .markdown
  body : String
  templateId : Option String := none

/-- The outcomes of a call, with that of none in time. -/
inductive CallOutcome where
  | reached | noContact | refused | wrongContact | timeout
  deriving DecidableEq

/-- `CALL_OUTCOMES`, and `timeout`, as the source spells them. -/
def CallOutcome.text : CallOutcome → String
  | .reached => "reached"
  | .noContact => "no_contact"
  | .refused => "refused"
  | .wrongContact => "wrong_contact"
  | .timeout => "timeout"

/-- The outcomes in the order of the schema. -/
def CallOutcome.all : List CallOutcome :=
  [.reached, .noContact, .refused, .wrongContact, .timeout]

/-- `onOutcome`: where each outcome of a call leads. -/
structure OutcomeEdges where
  reached : Option NodeId := none
  noContact : Option NodeId := none
  refused : Option NodeId := none
  wrongContact : Option NodeId := none
  timeout : Option NodeId := none

/-- Where an outcome leads. -/
def OutcomeEdges.get (edges : OutcomeEdges) : CallOutcome → Option NodeId
  | .reached => edges.reached
  | .noContact => edges.noContact
  | .refused => edges.refused
  | .wrongContact => edges.wrongContact
  | .timeout => edges.timeout

/-- Who at a company receives a message. -/
structure RecipientFilter where
  tag : Option String := none
  titleContains : Option String := none
  max : Nat := 3

/-- A step that sends a message. -/
structure MessageNode where
  id : NodeId
  channel : ChannelType := .email
  messageClass : MessageClass := .marketing
  content : MessageContent
  approval : ApprovalMode := .draftOnly
  draftBy : Option DraftAuthor := none
  brief : Option String := none
  draftInputs : Option (List AgentInput) := none
  draftTimeout : String := "PT30M"
  next : Option NodeId := none
  onReply : Option NodeId := none
  onOutcome : Option OutcomeEdges := none
  outcomeTimeout : Option String := none
  onUnseen : Option NodeId := none
  seenTimeout : Option String := none
  recipients : Option RecipientFilter := none

/-- `JOURNEY_ACTIONS`. -/
inductive JourneyAction where
  | updateContact | addTag | removeTag | logActivity | webhookPost

/-- As the spec writes it. -/
def JourneyAction.text : JourneyAction → String
  | .updateContact => "crm.update_contact"
  | .addTag => "crm.add_tag"
  | .removeTag => "crm.remove_tag"
  | .logActivity => "crm.log_activity"
  | .webhookPost => "webhook.post"

/-- What happens when an action fails for good. -/
inductive OnFail where
  | proceed
  | exit
  deriving DecidableEq

/-- Whether a failed action is tried again. -/
inductive RetryMode where
  | default
  | none
  deriving DecidableEq

/-- A step that changes something. -/
structure ActionNode where
  id : NodeId
  action : JourneyAction
  params : List (String × Json) := []
  onFail : OnFail := .proceed
  retry : RetryMode := .default
  next : Option NodeId := none

/-- A date in a field, with an offset. -/
structure UntilField where
  field : String
  offset : Option String := none

/-- A step that waits for a time. -/
structure WaitNode where
  id : NodeId
  duration : Option String := none
  until' : Option Instant := none
  untilField : Option UntilField := none
  validDays : Option (List Weekday) := none
  validHours : Option String := none
  next : Option NodeId := none

/-- A step that waits for an event. -/
structure WaitForNode where
  id : NodeId
  event : String
  payload : Option PayloadMatch := none
  timeout : String
  next : Option NodeId := none
  onTimeout : Option NodeId := none

/-- A rule of a branch. -/
structure BranchRule where
  condition : JourneyCondition
  next : NodeId

/-- The first rule that holds decides. -/
structure BranchNode where
  id : NodeId
  rules : List BranchRule
  default : NodeId

/-- A path of a split. -/
structure SplitPath where
  name : String
  percent : Nat
  next : NodeId
  deriving DecidableEq

/-- Percentages of the contacts go different ways. -/
structure SplitNode where
  id : NodeId
  paths : List SplitPath
  control : Option String := none
  sampleSize : Option Nat := none

/-- A goal that may end the journey. -/
structure GoalNode where
  id : NodeId
  name : String
  exitOnReach : Bool := false
  next : Option NodeId := none

/-- A step that only leads on. -/
structure JumpNode where
  id : NodeId
  to' : NodeId

/-- The end, with its reason. -/
structure ExitNode where
  id : NodeId
  reason : String := "reached_end"

/-- `AGENT_NODE_MODES`. -/
inductive AgentMode where
  | decide
  | enrich
  deriving DecidableEq

/-- `ENRICH_FIELD_TYPES`. -/
inductive EnrichFieldType where
  | string | number | boolean | date | enum
  deriving DecidableEq

/-- A field that an agent fills. -/
structure EnrichField where
  key : String
  type : EnrichFieldType
  options : Option (List String) := none

/-- A step that an agent works on. -/
structure AgentNode where
  id : NodeId
  mode : AgentMode
  edges : Option (List (String × NodeId)) := none
  fallback : Option String := none
  fields : Option (List EnrichField) := none
  inputs : List AgentInput
  timeout : String := "PT10M"
  next : Option NodeId := none

/-- A step that a person decides. -/
structure ApprovalNode where
  id : NodeId
  title : String
  instructions : Option String := none
  timeout : String := "P3D"
  next : Option NodeId := none
  onReject : Option NodeId := none
  onTimeout : Option NodeId := none

/-- A step that calls another journey. -/
structure SubJourneyNode where
  id : NodeId
  journeyId : String
  await : Bool := false
  timeout : String := "P30D"
  next : Option NodeId := none
  onGoal : Option NodeId := none

/-- `JourneyNode`. -/
inductive JourneyNode where
  | message (n : MessageNode)
  | action (n : ActionNode)
  | wait (n : WaitNode)
  | waitFor (n : WaitForNode)
  | branch (n : BranchNode)
  | split (n : SplitNode)
  | goal (n : GoalNode)
  | jump (n : JumpNode)
  | exit (n : ExitNode)
  | agent (n : AgentNode)
  | approval (n : ApprovalNode)
  | subJourney (n : SubJourneyNode)

/-- `JOURNEY_NODE_TYPES`. -/
inductive JourneyNodeType where
  | message | action | wait | waitFor | branch | split | goal | jump | exit | agent | approval
  | subJourney
  deriving DecidableEq

/-- The type of a node. -/
def JourneyNode.type : JourneyNode → JourneyNodeType
  | .message _ => .message
  | .action _ => .action
  | .wait _ => .wait
  | .waitFor _ => .waitFor
  | .branch _ => .branch
  | .split _ => .split
  | .goal _ => .goal
  | .jump _ => .jump
  | .exit _ => .exit
  | .agent _ => .agent
  | .approval _ => .approval
  | .subJourney _ => .subJourney

/-- The id of a node. -/
def JourneyNode.id : JourneyNode → NodeId
  | .message n => n.id
  | .action n => n.id
  | .wait n => n.id
  | .waitFor n => n.id
  | .branch n => n.id
  | .split n => n.id
  | .goal n => n.id
  | .jump n => n.id
  | .exit n => n.id
  | .agent n => n.id
  | .approval n => n.id
  | .subJourney n => n.id

/-! ### The spec -/

/-- How often the members of a segment are entered. -/
inductive EntrySchedule where
  | once
  | daily
  | weekly
  deriving DecidableEq

/-- A trigger that enters the members of a segment. -/
structure SegmentTrigger where
  segmentId : String
  schedule : EntrySchedule
  at' : String := "09:00"
  weekday : Option Weekday := none
  timezone : Option String := none

/-- `JourneyTrigger`. -/
inductive JourneyTrigger where
  | event (event : String) (payload : Option PayloadMatch)
  | segment (trigger : SegmentTrigger)
  | manual

/-- `JOURNEY_SUBJECTS`. -/
inductive JourneySubject where
  | contact
  | company
  deriving DecidableEq

/-- `REENTRY_POLICIES`. -/
inductive ReentryPolicy where
  | once
  | onceAtATime
  | concurrent
  deriving DecidableEq

/-- Who enters, and when. -/
structure JourneyEntry where
  trigger : JourneyTrigger
  subject : JourneySubject := .contact
  segmentId : Option String := none
  reentry : ReentryPolicy := .onceAtATime
  lastEntryAt : Option Instant := none

/-- The goal of the whole journey. -/
structure JourneyGoal where
  event : String
  payload : Option PayloadMatch := none
  windowDays : Nat
  exitOnGoal : Bool := true

/-- What holds for all steps. -/
structure JourneySettings where
  timezone : Option String := none
  quietHours : Option String := none
  validDays : Option (List Weekday) := none
  holdoutPct : Nat := 0
  frequencyCapPerWeek : Option Nat := none
  cooldownHoursAfterConversation : Nat := 24
  maxVisitsPerNode : Nat := 3
  smsChannelId : Option String := none
  voiceChannelId : Option String := none
  chatChannelId : Option String := none
  agentStepsPerDay : Option Nat := none

/-- `JourneySpec`. -/
structure JourneySpec where
  entry : JourneyEntry
  /-- `exit.idleDays`. -/
  idleDays : Option Nat := none
  goal : Option JourneyGoal := none
  settings : JourneySettings := {}
  start : NodeId
  nodes : List JourneyNode

/-- `spec.nodes.find((n) => n.id === id)`. -/
def JourneySpec.node (spec : JourneySpec) (id : NodeId) : Option JourneyNode :=
  spec.nodes.find? (·.id = id)

/-! ### Edges -/

/-- A labelled edge to a node. -/
structure NodeEdge where
  label : String
  to' : NodeId

/-- `add`: an edge, if it leads somewhere. -/
def edgeTo (label : String) (to' : Option NodeId) : List NodeEdge :=
  match to' with
  | none => []
  | some id => if id = "" then [] else [⟨label, id⟩]

/-- The label of a rule's edge, counting from zero. -/
def ruleLabel (i : Nat) : String :=
  "rule_" ++ toString (i + 1)

/-- `journeyNodeEdges`. -/
def journeyNodeEdges : JourneyNode → List NodeEdge
  | .message n =>
    let outcomes := n.onOutcome.getD {}
    edgeTo "next" n.next ++ edgeTo "on_reply" n.onReply ++
      (CallOutcome.all.flatMap fun outcome =>
        edgeTo ("outcome_" ++ outcome.text) (outcomes.get outcome)) ++
      edgeTo "on_unseen" n.onUnseen
  | .action n => edgeTo "next" n.next
  | .wait n => edgeTo "next" n.next
  | .goal n => edgeTo "next" n.next
  | .waitFor n => edgeTo "next" n.next ++ edgeTo "on_timeout" n.onTimeout
  | .branch n =>
    (n.rules.zipIdx.flatMap fun r => edgeTo (ruleLabel r.2) (some r.1.next)) ++
      edgeTo "default" (some n.default)
  | .split n => n.paths.flatMap fun p => edgeTo p.name (some p.next)
  | .jump n => edgeTo "jump" (some n.to')
  | .exit _ => []
  | .agent n =>
    ((n.edges.getD []).flatMap fun e => edgeTo e.1 (some e.2)) ++ edgeTo "next" n.next
  | .approval n =>
    edgeTo "next" n.next ++ edgeTo "on_reject" n.onReject ++ edgeTo "on_timeout" n.onTimeout
  | .subJourney n => edgeTo "next" n.next ++ edgeTo "on_goal" n.onGoal

/-! ### What the schema admits -/

/-- `z.string().min(lo).max(hi)`. -/
def hasLength (lo hi : Nat) (s : String) : Bool :=
  lo ≤ jsLength s && jsLength s ≤ hi

/-- A character of a path into a record: `[a-zA-Z0-9_.]`. -/
def isPathChar (c : Char) : Bool :=
  c.isAlphanum || c == '_' || c == '.'

/-- A path whose first component is one of `roots`. -/
def isPathUnder (roots : List String) (s : String) : Bool :=
  roots.any fun root =>
    jsStartsWith s (root ++ ".") && (s.toList.drop (root.length + 1)).all isPathChar &&
      root.length + 1 < s.length

/-- `EVENT_NAME_PATTERN`. -/
def isEventName (s : String) : Bool :=
  hasLength 1 64 s && s.toList.all fun c =>
    c.isLower || c.isDigit || c == '_' || c == '.' || c == '-'

/-- A clock time: `([01]\d|2[0-3]):[0-5]\d`. -/
def isClock : List Char → Bool
  | [a, b, ':', c, d] =>
    a.isDigit && b.isDigit && c.isDigit && d.isDigit && (a < '2' || (a = '2' && b < '4')) && c < '6'
  | _ => false

/-- `TIME_WINDOW_PATTERN`. -/
def isTimeWindow (s : String) : Bool :=
  isClock (s.toList.take 5) && s.toList[5]? = some '-' && isClock (s.toList.drop 6)

/-- `ISO_DURATION_PATTERN`. -/
def isDuration (s : String) : Bool :=
  (parseIsoDurationMs s).isSome

mutual

/-- `JourneyConditionSchema`. -/
def JourneyCondition.conforms : JourneyCondition → Bool
  | .all cs => 1 ≤ cs.length && cs.length ≤ 20 && conformAll cs
  | .any cs => 1 ≤ cs.length && cs.length ≤ 20 && conformAll cs
  | .not c => c.conforms
  | .field field _ _ => isPathUnder ["contact", "company"] field
  | .context path _ _ => path != "" && path.toList.all isPathChar
  | .tag tag _ => hasLength 1 64 tag
  | .event event _ since minCount =>
    isEventName event && minCount.all (fun n => 1 ≤ n && n ≤ 10000) &&
      match since with
      | some (.days n) => 1 ≤ n && n ≤ 3650
      | _ => true
  | .segment segment _ => hasLength 1 64 segment
  | .time days between =>
    days.all (fun ds => 1 ≤ ds.length && ds.length ≤ 7) && between.all isTimeWindow

/-- Each of these conditions conforms. -/
def conformAll : List JourneyCondition → Bool
  | [] => true
  | c :: cs => c.conforms && conformAll cs

end

/-- `JourneyNodeSchema`: the bounds and patterns of each kind of node. -/
def JourneyNode.conforms (node : JourneyNode) : Bool :=
  isNodeId node.id &&
    match node with
    | .message n =>
      n.content.subject.all (hasLength 1 300) && n.content.preheader.all (hasLength 0 300) &&
        hasLength 1 100000 n.content.body && n.content.templateId.all (hasLength 1 64) &&
        n.brief.all (hasLength 1 2000) && n.draftInputs.all (·.length ≤ 6) &&
        isDuration n.draftTimeout && n.next.all isNodeId &&
        n.onReply.all isNodeId &&
        (CallOutcome.all.all fun outcome => ((n.onOutcome.getD {}).get outcome).all isNodeId) &&
        n.outcomeTimeout.all isDuration && n.onUnseen.all isNodeId &&
        n.seenTimeout.all isDuration && n.recipients.all fun r =>
          r.tag.all (hasLength 1 64) && r.titleContains.all (hasLength 1 64) &&
            1 ≤ r.max && r.max ≤ 10
    | .action n => n.next.all isNodeId
    | .wait n =>
      n.duration.all isDuration &&
        n.untilField.all (fun f => isPathUnder ["contact", "context"] f.field &&
          f.offset.all fun o => jsStartsWith o "P" || jsStartsWith o "-P") &&
        n.validDays.all (fun ds => 1 ≤ ds.length && ds.length ≤ 7) &&
        n.validHours.all isTimeWindow && n.next.all isNodeId
    | .waitFor n =>
      hasLength 1 96 n.event && isDuration n.timeout && n.next.all isNodeId &&
        n.onTimeout.all isNodeId
    | .branch n =>
      1 ≤ n.rules.length && n.rules.length ≤ 20 &&
        n.rules.all (fun r => r.condition.conforms && isNodeId r.next) && isNodeId n.default
    | .split n =>
      2 ≤ n.paths.length && n.paths.length ≤ 10 &&
        n.paths.all (fun p =>
          isNodeId p.name && 1 ≤ p.percent && p.percent ≤ 100 && isNodeId p.next) &&
        n.control.all isNodeId && n.sampleSize.all fun k => 20 ≤ k && k ≤ 1000000
    | .goal n => isNodeId n.name && n.next.all isNodeId
    | .jump n => isNodeId n.to'
    | .exit n => isNodeId n.reason
    | .agent n =>
      (n.edges.getD []).all (fun e => isNodeId e.1 && isNodeId e.2) && n.fallback.all isNodeId &&
        n.fields.all (fun fs => fs.length ≤ 12 && fs.all fun f =>
          hasLength 1 48 f.key && f.key.toList.head?.any Char.isAlpha &&
            f.key.toList.all (fun c => c.isAlphanum || c == '_') &&
            f.options.all fun os => os.length ≤ 20 && os.all (hasLength 1 64)) &&
        1 ≤ n.inputs.length && n.inputs.length ≤ 6 && isDuration n.timeout && n.next.all isNodeId
    | .approval n =>
      hasLength 1 200 n.title && n.instructions.all (hasLength 1 2000) && isDuration n.timeout &&
        n.next.all isNodeId && n.onReject.all isNodeId && n.onTimeout.all isNodeId
    | .subJourney n =>
      hasLength 1 64 n.journeyId && isDuration n.timeout && n.next.all isNodeId &&
        n.onGoal.all isNodeId

/-- `JourneySpecSchema`. -/
def JourneySpec.conforms (spec : JourneySpec) : Bool :=
  isNodeId spec.start && 1 ≤ spec.nodes.length && spec.nodes.length ≤ 100 &&
    spec.nodes.all (·.conforms) && spec.idleDays.all (fun n => 1 ≤ n && n ≤ 365) &&
    spec.goal.all (fun g => hasLength 1 96 g.event && 1 ≤ g.windowDays && g.windowDays ≤ 365) &&
    spec.entry.segmentId.all (hasLength 1 64) &&
    (match spec.entry.trigger with
      | .event event _ => hasLength 1 96 event
      | .segment t =>
        hasLength 1 64 t.segmentId && isClock t.at'.toList && t.timezone.all (hasLength 1 64)
      | .manual => true) &&
    spec.settings.timezone.all (hasLength 1 64) &&
    spec.settings.quietHours.all isTimeWindow &&
    (spec.settings.validDays.all fun days => 1 ≤ days.length && days.length ≤ 7) &&
    spec.settings.holdoutPct ≤ 50 &&
    (spec.settings.frequencyCapPerWeek.all fun cap => 1 ≤ cap && cap ≤ 50) &&
    spec.settings.cooldownHoursAfterConversation ≤ 720 &&
    1 ≤ spec.settings.maxVisitsPerNode && spec.settings.maxVisitsPerNode ≤ 20 &&
    spec.settings.smsChannelId.all (hasLength 1 64) &&
    spec.settings.voiceChannelId.all (hasLength 1 64) &&
    spec.settings.chatChannelId.all (hasLength 1 64) &&
    spec.settings.agentStepsPerDay.all fun n => 1 ≤ n && n ≤ 100000

/-- A node of a spec that conforms conforms. -/
theorem JourneySpec.conforms_node {spec : JourneySpec} (h : spec.conforms = true)
    {node : JourneyNode} (hn : node ∈ spec.nodes) : node.conforms = true := by
  simp only [JourneySpec.conforms, Bool.and_eq_true, List.all_eq_true] at h
  tauto

/-- A node that conforms has an id. -/
theorem JourneyNode.id_ne_empty {node : JourneyNode} (h : node.conforms = true) : node.id ≠ "" := by
  simp only [JourneyNode.conforms, Bool.and_eq_true] at h
  intro hempty
  have hid : isNodeId node.id = true := h.1
  rw [hempty] at hid
  exact absurd hid (by decide)

end Munin
