import Munin.Foundations.Digraph
import Munin.Journeys.Spec

/-!
# The journey validator

`validateJourneySpec` goes through a spec that the schema admits and collects errors and warnings; a
spec without errors can be published. Each check here returns the issues it adds, in the order in
which the source pushes them.

* **`checkNode`, `checkCompanyJourney`** — what each kind of node must have.
* **`reachableFrom`, `tightCycles`** — the two searches through the graph of nodes.
* **`reachesJourney`** — whether a journey leads to another through sub-journeys.

The check of merge fields in message texts is the parameter `checkMessageMergeFields`.
-/

namespace Munin

open Foundations

/-! ### Issues and references -/

/-- `JourneyIssue`. -/
structure JourneyIssue where
  code : String
  message : String
  nodeId : Option NodeId := none
  path : Option String := none

/-- The two lists that checks push to. -/
structure Issues where
  errors : List JourneyIssue := []
  warnings : List JourneyIssue := []

instance : Append Issues where
  append a b := ⟨a.errors ++ b.errors, a.warnings ++ b.warnings⟩

@[simp]
theorem Issues.errors_append (a b : Issues) : (a ++ b).errors = a.errors ++ b.errors := rfl

/-- The issues of a list of checks, in order. -/
def Issues.concat (checks : List Issues) : Issues :=
  checks.foldr (· ++ ·) {}

theorem Issues.errors_concat (checks : List Issues) :
    (Issues.concat checks).errors = checks.flatMap (·.errors) := by
  induction checks with
  | nil => rfl
  | cons c cs ih =>
    have htail : (Issues.concat (c :: cs)).errors = c.errors ++ (Issues.concat cs).errors := rfl
    rw [htail, ih, List.flatMap_cons]

/-- An error, where the condition holds. -/
def errorIf (condition : Bool) (code message : String) (nodeId : Option NodeId := none) : Issues :=
  if condition then ⟨[{ code, message, nodeId }], []⟩ else {}

/-- A warning, where the condition holds. -/
def warnIf (condition : Bool) (code message : String) (nodeId : Option NodeId := none) : Issues :=
  if condition then ⟨[], [{ code, message, nodeId }]⟩ else {}

/-- What a spec may refer to outside itself. -/
structure JourneyRef where
  status : String
  calls : List String

/-- `JourneyReferences`. -/
structure JourneyReferences where
  segmentIds : List String := []
  emailTemplateIds : List String := []
  webhookIds : List String := []
  smsChannelIds : Option (List String) := none
  voiceChannelIds : Option (List String) := none
  chatChannelIds : Option (List String) := none
  selfJourneyId : Option String := none
  journeys : Option (List (String × JourneyRef)) := none
  llmConfigured : Option Bool := none

/-! ### Lookups and searches -/

/-- `byId.get(id)`: the last node with the id. -/
def JourneySpec.byId (spec : JourneySpec) (id : NodeId) : Option JourneyNode :=
  spec.nodes.reverse.find? (·.id = id)

/-- The ids that occur again after their first node, once for each further node. -/
def duplicateIds : List NodeId → List JourneyNode → List NodeId
  | _, [] => []
  | seen, n :: ns =>
    if n.id ∈ seen then n.id :: duplicateIds seen ns else duplicateIds (n.id :: seen) ns

/-- `reachableFrom`, with fuel for every node and every edge. -/
def reachableFrom (spec : JourneySpec) : List NodeId :=
  visit (1 + (spec.nodes.map fun n => (journeyNodeEdges n).length).sum + 1) [] [spec.start]
where
  /-- The loop: the nodes seen, and the stack with its top first. -/
  visit : Nat → List NodeId → List NodeId → List NodeId
    | 0, seen, _ => seen
    | _ + 1, seen, [] => seen
    | k + 1, seen, id :: stack =>
      if id ∈ seen then visit k seen stack
      else match spec.byId id with
        | none => visit k seen stack
        | some node =>
          visit k (id :: seen) (((journeyNodeEdges node).map (·.to')).reverse ++ stack)

/-- `WAITING_NODE_TYPES`. -/
def JourneyNodeType.waits : JourneyNodeType → Bool
  | .wait | .waitFor | .message | .agent | .approval | .subJourney => true
  | .action | .branch | .split | .goal | .jump | .exit => false

/-- The state of the search for loops: the loops found, the nodes done, and the path from the
first open node. -/
structure CycleSearch where
  cycles : List (List NodeId) := []
  done : List NodeId := []
  path : List NodeId := []

/-- `visit` of `tightCycles`; the fuel bounds the depth, which is at most the number of nodes. -/
def visitTight (spec : JourneySpec) : Nat → NodeId → CycleSearch → CycleSearch
  | 0, _, s => s
  | k + 1, id, s =>
    match spec.byId id with
    | none => s
    | some node =>
      if node.type.waits || id ∈ s.done then s
      else if id ∈ s.path then { s with cycles := s.cycles ++ [s.path.dropWhile (· ≠ id)] }
      else
        let visited := (journeyNodeEdges node).foldl (fun s e => visitTight spec k e.to' s)
          { s with path := s.path ++ [id] }
        { visited with done := id :: visited.done, path := visited.path.dropLast }

/-- `tightCycles`. -/
def tightCycles (spec : JourneySpec) : List (List NodeId) :=
  ((spec.nodes.map (·.id)).foldl (fun s id => visitTight spec (spec.nodes.length + 1) id s)
    {}).cycles

/-- The graph of the journeys that live versions call. -/
def callGraph (journeys : List (String × JourneyRef)) : SuccGraph String :=
  journeys.map fun e => (e.1, e.2.calls)

/-- `reachesJourney`. -/
def reachesJourney (from' target : String) (journeys : Option (List (String × JourneyRef))) :
    Bool :=
  (callGraph (journeys.getD [])).reaches from' target

/-! ### Checks of single nodes -/

def JOURNEY_CHAT_MAX_CHARS : Nat := 2000
def JOURNEY_SMS_MAX_CHARS : Nat := 480
def JOURNEY_CALL_OPENING_MAX_CHARS : Nat := 1000
def DEFAULT_PHONE_QUIET_HOURS : String := "21:00-08:00"

/-- Whether a text is there and not empty. -/
def given (s : Option String) : Bool := truthy s

/-- Whether the content has more than a body in markdown. -/
def MessageContent.rich (c : MessageContent) : Bool :=
  given c.subject || given c.preheader || given c.templateId || c.format = .mjml

/-- An agent-drafted message without a brief. -/
def checkBrief (n : MessageNode) (what : String) : Issues :=
  errorIf (n.draftBy = some .agent && !given n.brief) "agent_draft_brief"
    ("an agent-drafted " ++ what ++ " needs a brief") n.id

/-- Edges for call outcomes on a message that is no call. -/
def checkOutcomeEdges (n : MessageNode) : Issues :=
  errorIf (n.onOutcome.isSome || given n.outcomeTimeout) "outcome_edges"
    "onOutcome and outcomeTimeout apply to call steps only" n.id

/-- A body longer than its channel allows. -/
def checkLength (n : MessageNode) (code what : String) (limit : Nat) : Issues :=
  errorIf (limit < jsLength n.content.body) code
    (what ++ " is " ++ toString (jsLength n.content.body) ++ " characters; the limit is " ++
      toString limit) n.id

def checkSmsNode (n : MessageNode) : Issues :=
  errorIf (n.approval = .auto && n.messageClass ≠ .transactional) "sms_auto"
      "a marketing SMS step is approved by a person; only transactional SMS can use auto" n.id ++
    checkBrief n "message" ++
    errorIf n.content.rich "sms_content"
      "an SMS step has only content.body: no subject, preheader, template or MJML" n.id ++
    checkLength n "sms_length" "SMS text" JOURNEY_SMS_MAX_CHARS

def checkCallNode (n : MessageNode) : Issues :=
  errorIf (n.approval ≠ .draftOnly) "voice_approval"
      "a person approves every call; call steps use draft_only" n.id ++
    checkBrief n "message" ++
    errorIf (given n.onReply) "voice_reply" "a call has no reply; branch on onOutcome instead"
      n.id ++
    errorIf n.content.rich "voice_content"
      "a call step has only content.body, the opening the voice agent uses" n.id ++
    checkLength n "voice_length" "the call opening" JOURNEY_CALL_OPENING_MAX_CHARS

def checkChatNode (n : MessageNode) : Issues :=
  checkOutcomeEdges n ++
    errorIf n.content.rich "chat_content"
      "a chat step has only content.body, in markdown: no subject, preheader, template or MJML"
      n.id ++
    checkLength n "chat_length" "the chat message" JOURNEY_CHAT_MAX_CHARS ++
    checkBrief n "message"

/-- The email part of `checkNode`. -/
def checkEmailNode (refs : JourneyReferences) (n : MessageNode) : Issues :=
  errorIf (!given n.content.subject) "missing_subject" "an email step needs a subject" n.id ++
    checkBrief n "email" ++
    warnIf (n.draftBy = some .agent && n.approval = .auto) "agent_draft_auto"
      ("an agent-drafted step can be published with auto only once it has 30 reviewed drafts in " ++
        "30 days with at least 90% approved unedited") n.id ++
    match n.content.templateId with
    | none => {}
    | some templateId =>
      errorIf (templateId ≠ "" && templateId ∉ refs.emailTemplateIds) "unknown_template"
        ("email template \"" ++ templateId ++ "\" does not exist") n.id

def checkMessageNode (checkMessageMergeFields : MessageNode → Issues) (refs : JourneyReferences)
    (n : MessageNode) : Issues :=
  checkMessageMergeFields n ++
    errorIf (n.channel ≠ .chat && (given n.onUnseen || given n.seenTimeout)) "unseen_edges"
      "onUnseen and seenTimeout apply to chat steps only" n.id ++
    match n.channel with
    | .chat => checkChatNode n
    | .voice => checkCallNode n
    | .sms => checkOutcomeEdges n ++ checkSmsNode n
    | .email => checkOutcomeEdges n ++ checkEmailNode refs n

/-- `typeof params[key] === 'string'`, and then the text. -/
def stringParam (params : List (String × Json)) (key : String) : Option String :=
  match params.lookup key with
  | some (.str s) => some s
  | _ => none

def checkAction (refs : JourneyReferences) (n : ActionNode) : Issues :=
  match n.action with
  | .addTag | .removeTag =>
    errorIf (!(stringParam n.params "tag").any (hasLength 1 64)) "action_params"
      (n.action.text ++ " needs params.tag (1–64 characters)") n.id
  | .updateContact =>
    let isObject := match n.params.lookup "fields" with
      | some (.obj _) => true
      | _ => false
    errorIf (!isObject) "action_params" "crm.update_contact needs params.fields as an object" n.id
  | .logActivity =>
    errorIf (!given (stringParam n.params "subject")) "action_params"
      "crm.log_activity needs params.subject" n.id
  | .webhookPost =>
    errorIf (!(stringParam n.params "webhookId").any (· ∈ refs.webhookIds)) "action_params"
      "webhook.post needs params.webhookId naming an existing webhook" n.id

/-- `isReservedEnrichKey`. -/
def isReservedEnrichKey (key : String) : Bool :=
  key ∈ ["timezone", "locale", "language", "mergedInto", "consentLawfulBasis", "consentSource",
    "doNotContact", "unsubscribedAt", "email", "phone"] || jsStartsWith key "outreachOutcome"

def checkAgent (refs : JourneyReferences) (n : AgentNode) : Issues :=
  let edges := (n.edges.getD []).map (·.1)
  (match n.mode with
    | .decide =>
      errorIf (edges.length < 2 || 10 < edges.length) "agent_edges"
          "a decide step declares between 2 and 10 edges" n.id ++
        errorIf (!given n.fallback || !n.fallback.any (· ∈ edges)) "agent_fallback"
          ("fallback \"" ++ n.fallback.getD "" ++ "\" must be one of the declared edges (" ++
            String.intercalate ", " edges ++ ")") n.id ++
        errorIf (given n.next || n.fields.isSome) "agent_mode_fields"
          "a decide step uses edges and fallback, not next or fields" n.id
    | .enrich =>
      errorIf (n.fields.getD []).isEmpty "agent_fields" "an enrich step declares at least one field"
          n.id ++
        errorIf (n.edges.isSome || given n.fallback) "agent_mode_fields"
          "an enrich step uses fields and next, not edges" n.id ++
        Issues.concat ((n.fields.getD []).map fun field =>
          errorIf (isReservedEnrichKey field.key) "agent_fields"
              ("\"" ++ field.key ++ "\" is set by Munin itself; choose another key") n.id ++
            errorIf (field.type = .enum && (field.options.getD []).isEmpty) "agent_fields"
              ("enum field \"" ++ field.key ++ "\" needs options") n.id)) ++
    warnIf (refs.llmConfigured = some false) "agent_without_model"
      ("no LLM provider is configured, so every contact takes the fallback edge after the " ++
        "timeout") n.id ++
    warnIf (AgentInput.reply ∈ n.inputs || AgentInput.thread ∈ n.inputs) "agent_reads_conversation"
      "reply and thread inputs are empty until the contact has a journey conversation" n.id

/-- `checkNode`. -/
def checkNode (checkMessageMergeFields : MessageNode → Issues) (refs : JourneyReferences)
    (node : JourneyNode) : Issues :=
  match node with
  | .message n => checkMessageNode checkMessageMergeFields refs n
  | .wait n =>
    errorIf
      ([given n.duration, n.until'.isSome, n.untilField.isSome].countP (fun mode => mode) ≠ 1)
      "wait_mode" "a wait node needs exactly one of duration, until or untilField" n.id
  | .waitFor n =>
    warnIf (!given n.onTimeout) "timeout_ends_journey"
      "no onTimeout edge; contacts whose wait times out exit with wait_timeout" n.id
  | .split n =>
    let total := (n.paths.map (·.percent)).sum
    errorIf (n.control.any fun control => control ≠ "" && n.paths.all (·.name ≠ control))
        "split_control" ("control \"" ++ n.control.getD "" ++ "\" is not one of the split's paths")
        n.id ++
      errorIf (n.sampleSize.any (· ≠ 0) && !given n.control) "split_control"
        ("a split with sampleSize needs a control path to send everyone to once the sample is " ++
          "full") n.id ++
      errorIf (total ≠ 100) "split_total"
        ("split percentages add up to " ++ toString total ++ ", not 100") n.id
  | .action n => checkAction refs n
  | .agent n => checkAgent refs n
  | .branch _ | .goal _ | .jump _ | .exit _ | .approval _ | .subJourney _ => {}

/-- The checks of one node: its edges, then its own. -/
def checkEdgesAndNode (checkMessageMergeFields : MessageNode → Issues) (spec : JourneySpec)
    (refs : JourneyReferences) (node : JourneyNode) : Issues :=
  let edges := journeyNodeEdges node
  Issues.concat (edges.map fun edge =>
      errorIf (spec.byId edge.to').isNone "dangling_edge"
        ("edge \"" ++ edge.label ++ "\" points to missing node \"" ++ edge.to' ++ "\"")
        node.id) ++
    warnIf (edges.isEmpty && node.type ≠ .exit) "implicit_end"
      "node has no outgoing edge; contacts reaching it exit with reached_end" node.id ++
    checkNode checkMessageMergeFields refs node

/-- `PERSON_ACTIONS`. -/
def JourneyAction.changesPerson : JourneyAction → Bool
  | .updateContact => true
  | .addTag | .removeTag | .logActivity | .webhookPost => false

/-- `checkCompanyJourney`, for one node. -/
def checkCompanyNode : JourneyNode → Issues
  | .message n =>
    errorIf n.recipients.isNone "company_recipients"
        "a message in a company journey needs recipients: who at the company receives it" n.id ++
      errorIf (n.channel = .voice) "company_voice"
        "a company journey cannot place calls; call steps follow one person" n.id ++
      errorIf (n.draftBy = some .agent) "company_agent_draft"
        "a company journey sends one fixed text to each recipient; agent drafts follow one person"
        n.id ++
      errorIf (given n.onUnseen || given n.seenTimeout) "company_unseen"
        "a company journey does not wait for a chat message to be seen" n.id
  | .action n =>
    errorIf n.action.changesPerson "company_action"
      (n.action.text ++ " changes one person; a company journey can tag the company, log an " ++
        "activity or post a webhook") n.id
  | .wait n =>
    errorIf (n.untilField.any fun f => jsStartsWith f.field "contact.") "company_wait"
      "a company journey has no single contact to read a date from; use a context field" n.id
  | _ => {}

/-- `checkCompanyJourney`. -/
def checkCompanyJourney (spec : JourneySpec) : Issues :=
  Issues.concat (spec.nodes.map checkCompanyNode)

/-! ### Checks of the whole spec -/

/-- The message nodes of a spec. -/
def JourneySpec.messages (spec : JourneySpec) : List MessageNode :=
  spec.nodes.filterMap fun
    | .message n => some n
    | _ => none

/-- The sub-journey nodes of a spec. -/
def JourneySpec.subJourneys (spec : JourneySpec) : List SubJourneyNode :=
  spec.nodes.filterMap fun
    | .subJourney n => some n
    | _ => none

/-- The check that a channel's messages have a channel of the right kind to go out on. -/
def checkChannel (spec : JourneySpec) (channel : ChannelType) (channelId : Option String)
    (known : Option (List String)) (code missing unknown : String) : Issues :=
  if spec.messages.any (·.channel = channel) then
    if !given channelId then errorIf true code missing
    else errorIf (known.any fun ids => channelId.all (· ∉ ids)) code
      ("\"" ++ channelId.getD "" ++ "\" is not " ++ unknown ++ " in this organization")
  else {}

/-- The segments that a spec refers to, each once, in the order in which they are collected. -/
def JourneySpec.segmentRefs (spec : JourneySpec) : List String :=
  let rules := spec.nodes.flatMap fun
    | .branch n => n.rules.flatMap (·.condition.segmentIds)
    | _ => []
  let trigger := match spec.entry.trigger with
    | .segment t => [t.segmentId]
    | _ => []
  (spec.entry.segmentId.toList.filter (· ≠ "") ++ trigger ++ rules).eraseDups

/-- The check of one sub-journey node. -/
def checkSubJourney (refs : JourneyReferences) (n : SubJourneyNode) : Issues :=
  let target := refs.journeys.bind (·.lookup n.journeyId)
  if refs.journeys.isSome && target.isNone then
    errorIf true "unknown_journey" ("journey \"" ++ n.journeyId ++ "\" does not exist") n.id
  else if refs.selfJourneyId.any fun self => reachesJourney n.journeyId self refs.journeys then
    errorIf true "sub_journey_cycle"
      ("journey \"" ++ n.journeyId ++ "\" leads back into this journey, so a person could loop " ++
        "between them") n.id
  else match target with
    | none => {}
    | some ref =>
      warnIf (ref.status ≠ "live") "sub_journey_not_live"
        ("journey \"" ++ n.journeyId ++ "\" is " ++ ref.status ++
          "; until it is live, people pass this step without entering it") n.id

/-- The checks of concurrent re-entry. -/
def checkConcurrent (spec : JourneySpec) : Issues :=
  if spec.entry.reentry = .concurrent then
    let isEvent := match spec.entry.trigger with
      | .event .. => true
      | _ => false
    errorIf (!isEvent) "concurrent_trigger"
        "concurrent re-entry starts one run per event, so it needs an event trigger" ++
      errorIf (!spec.messages.isEmpty) "concurrent_messages"
        ("concurrent runs cannot send messages (" ++
          String.intercalate ", " (spec.messages.map (·.id)) ++
          "): parallel runs would message the same person several times; use once_at_a_time")
  else {}

/-- The issues that `validateJourneySpec` collects. -/
def journeyIssues (checkMessageMergeFields : MessageNode → Issues) (spec : JourneySpec)
    (refs : JourneyReferences) : Issues :=
  Issues.concat ((duplicateIds [] spec.nodes).map fun id =>
      errorIf true "duplicate_node" ("node id \"" ++ id ++ "\" is used twice") id) ++
    errorIf (spec.byId spec.start).isNone "missing_start"
      ("start node \"" ++ spec.start ++ "\" does not exist") ++
    Issues.concat (spec.nodes.map (checkEdgesAndNode checkMessageMergeFields spec refs)) ++
    Issues.concat (spec.nodes.map fun node =>
      errorIf (node.id ∉ reachableFrom spec) "unreachable_node"
        "no path from the start node reaches this node" node.id) ++
    Issues.concat ((tightCycles spec).map fun cycle =>
      errorIf true "loop_without_wait" ("loop " ++ String.intercalate " → " cycle ++
        " has no wait, wait_for or message node, so it would spin until the visit cap")
        cycle.head?) ++
    Issues.concat (spec.segmentRefs.map fun id =>
      errorIf (id ∉ refs.segmentIds) "unknown_segment"
        ("segment \"" ++ id ++ "\" does not exist")) ++
    checkChannel spec .sms spec.settings.smsChannelId refs.smsChannelIds "sms_channel"
      "SMS steps need settings.smsChannelId, an SMS channel to send from" "an SMS channel" ++
    (match spec.entry.subject with
      | .company => checkCompanyJourney spec
      | .contact => Issues.concat (spec.messages.map fun n =>
        errorIf n.recipients.isSome "recipients_company_only"
          "recipients apply to company journeys only; a person journey writes to its person"
          n.id)) ++
    checkChannel spec .chat spec.settings.chatChannelId refs.chatChannelIds "chat_channel"
      "chat steps need settings.chatChannelId, a chat widget channel to write in"
      "a chat widget channel" ++
    warnIf (!given spec.settings.quietHours &&
        spec.messages.any fun n => n.channel = .sms || n.channel = .voice)
      "phone_quiet_hours" ("settings.quietHours is not set, so text messages and calls wait out " ++
        DEFAULT_PHONE_QUIET_HOURS ++ " in each person's timezone; set it to choose another " ++
        "window, or 00:00-00:00 for none") ++
    checkChannel spec .voice spec.settings.voiceChannelId refs.voiceChannelIds "voice_channel"
      "call steps need settings.voiceChannelId, a voice channel to call from" "a voice channel" ++
    Issues.concat (spec.subJourneys.map (checkSubJourney refs)) ++
    checkConcurrent spec ++
    errorIf spec.goal.isNone "missing_goal"
      "every journey needs a goal event and attribution window" ++
    errorIf (match spec.entry.trigger with
        | .event event _ => jsStartsWith event "journey."
        | _ => false)
      "self_trigger" "journey.* events cannot enter contacts into a journey"

/-- `JourneyValidation`. -/
structure JourneyValidation where
  valid : Bool
  errors : List JourneyIssue
  warnings : List JourneyIssue

/-- `validateJourneySpec`. -/
def validateJourneySpec (checkMessageMergeFields : MessageNode → Issues) (spec : JourneySpec)
    (refs : JourneyReferences) : JourneyValidation :=
  let issues := journeyIssues checkMessageMergeFields spec refs
  ⟨issues.errors.isEmpty, issues.errors, issues.warnings⟩

/-! ### What a valid spec meets -/

/-- A check that adds no error was of a condition that does not hold. -/
theorem errorIf_errors_eq_nil {condition : Bool} {code message : String} {nodeId : Option NodeId} :
    (errorIf condition code message nodeId).errors = [] ↔ condition = false := by
  unfold errorIf
  cases condition <;> simp

/-- The ids of nodes without duplicates are distinct. -/
theorem nodup_of_duplicateIds {seen : List NodeId} {nodes : List JourneyNode}
    (h : duplicateIds seen nodes = []) :
    (nodes.map (·.id)).Nodup ∧ ∀ n ∈ nodes, n.id ∉ seen := by
  induction nodes generalizing seen with
  | nil => exact ⟨.nil, fun n hn => by cases hn⟩
  | cons n ns ih =>
    unfold duplicateIds at h
    split at h
    · cases h
    · rename_i hnew
      obtain ⟨hnodup, hfresh⟩ := ih h
      refine ⟨List.nodup_cons.2 ⟨fun hmem => ?_, hnodup⟩, fun m hm => ?_⟩
      · obtain ⟨m, hm, hid⟩ := List.mem_map.1 hmem
        exact hfresh m hm (hid ▸ List.mem_cons_self)
      · rcases List.mem_cons.1 hm with rfl | hm
        · exact hnew
        · exact fun hseen => hfresh m hm (List.mem_cons_of_mem _ hseen)

/-- A node that is found by its id is one of the nodes. -/
theorem exists_of_byId {spec : JourneySpec} {id : NodeId} (h : (spec.byId id).isNone = false) :
    ∃ node ∈ spec.nodes, node.id = id := by
  cases hfind : spec.byId id with
  | none => simp [hfind] at h
  | some node =>
    rw [JourneySpec.byId] at hfind
    have hid := List.find?_some hfind
    exact ⟨node, List.mem_reverse.1 (List.mem_of_find?_eq_some hfind), by simpa using hid⟩

/-- The checks that add no error to those of a valid spec. -/
structure PassedChecks (checkMessageMergeFields : MessageNode → Issues) (spec : JourneySpec)
    (refs : JourneyReferences) : Prop where
  duplicates : ∀ id, id ∉ duplicateIds [] spec.nodes
  start : (errorIf (spec.byId spec.start).isNone "missing_start"
    ("start node \"" ++ spec.start ++ "\" does not exist")).errors = []
  nodes : ∀ node ∈ spec.nodes, (checkEdgesAndNode checkMessageMergeFields spec refs node).errors = []
  subJourneys : ∀ n ∈ spec.subJourneys, (checkSubJourney refs n).errors = []

section Valid

variable {checkMessageMergeFields : MessageNode → Issues} {spec : JourneySpec}
  {refs : JourneyReferences} {node : JourneyNode}
  (h : (validateJourneySpec checkMessageMergeFields spec refs).valid = true)

include h

/-- A valid spec has no errors. -/
theorem errors_of_valid :
    (journeyIssues checkMessageMergeFields spec refs).errors = [] := by
  rw [validateJourneySpec] at h
  generalize (journeyIssues checkMessageMergeFields spec refs).errors = errors at h ⊢
  exact List.isEmpty_iff.1 h

theorem passedChecks_of_valid :
    PassedChecks checkMessageMergeFields spec refs := by
  have herrors := errors_of_valid h
  simp only [journeyIssues, Issues.errors_append, List.append_eq_nil_iff, and_assoc,
    Issues.errors_concat, List.flatMap_map] at herrors
  obtain ⟨hdup, hstart, hnodes, -, -, -, -, -, -, -, -, hsub, -⟩ := herrors
  refine ⟨fun id hid => ?_, hstart, List.flatMap_eq_nil_iff.1 hnodes,
    List.flatMap_eq_nil_iff.1 hsub⟩
  have hnone := List.flatMap_eq_nil_iff.1 hdup id hid
  cases hnone

/-- The node ids of a valid spec are distinct. -/
theorem duplicateIds_of_valid :
    duplicateIds [] spec.nodes = [] :=
  List.eq_nil_iff_forall_not_mem.2 (passedChecks_of_valid h).duplicates

/-- The nodes of a valid spec pass their own checks. -/
theorem checkNode_of_valid (hn : node ∈ spec.nodes) :
    (checkNode checkMessageMergeFields refs node).errors = [] := by
  have hnode := (passedChecks_of_valid h).nodes node hn
  rw [checkEdgesAndNode, Issues.errors_append, List.append_eq_nil_iff] at hnode
  exact hnode.2

/-- The fallback of a decide step of a valid spec is one of its edges. -/
theorem fallback_of_valid {n : AgentNode} (hn : .agent n ∈ spec.nodes) (hmode : n.mode = .decide) :
    ∃ fallback, n.fallback = some fallback ∧ fallback ≠ "" ∧
      ((n.edges.getD []).lookup fallback).isSome := by
  have hcheck := checkNode_of_valid h hn
  simp only [checkNode, checkAgent, hmode, Issues.errors_append, List.append_eq_nil_iff,
    and_assoc, errorIf_errors_eq_nil] at hcheck
  have hfallback := hcheck.2.1
  cases hf : n.fallback with
  | none => simp [hf, given] at hfallback
  | some fallback =>
    simp only [hf, given, truthy, Option.any_some, Bool.or_eq_false_iff, Bool.not_eq_false',
      bne_iff_ne, decide_eq_true_eq] at hfallback
    refine ⟨fallback, rfl, hfallback.1, ?_⟩
    obtain ⟨edge, hedge, hname⟩ := List.mem_map.1 hfallback.2
    rw [Option.isSome_iff_ne_none]
    intro hnone
    have hne := List.lookup_eq_none_iff.1 hnone edge hedge
    simp [hname] at hne

/-- The percentages of a split of a valid spec add up to 100. -/
theorem percent_of_valid {n : SplitNode}
    (hn : .split n ∈ spec.nodes) : (n.paths.map (·.percent)).sum = 100 := by
  have hcheck := checkNode_of_valid h hn
  simp only [checkNode, Issues.errors_append, List.append_eq_nil_iff, errorIf_errors_eq_nil]
    at hcheck
  simpa using hcheck.2

/-- **The node ids of a valid spec are distinct.** -/
theorem nodup_ids_of_valid :
    (spec.nodes.map (·.id)).Nodup :=
  (nodup_of_duplicateIds (duplicateIds_of_valid h)).1

/-- A valid spec has its start node. -/
theorem start_of_valid :
    ∃ node ∈ spec.nodes, node.id = spec.start :=
  exists_of_byId (errorIf_errors_eq_nil.1 (passedChecks_of_valid h).start)

/-- The edges of a valid spec lead to its nodes. -/
theorem target_of_valid (hn : node ∈ spec.nodes) {e : NodeEdge} (he : e ∈ journeyNodeEdges node) :
    ∃ m ∈ spec.nodes, m.id = e.to' := by
  have hnode := (passedChecks_of_valid h).nodes node hn
  simp only [checkEdgesAndNode, Issues.errors_append, List.append_eq_nil_iff, and_assoc,
    Issues.errors_concat, List.flatMap_map] at hnode
  have hedge := List.flatMap_eq_nil_iff.1 hnode.1 e he
  exact exists_of_byId (errorIf_errors_eq_nil.1 hedge)

end Valid

end Munin
