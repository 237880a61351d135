import Munin.Common
import Munin.Conversations.Flags
import Munin.Foundations.Machine
import Mathlib.Data.Rat.Defs

/-!
# A run of the conversation handler

A run reads the conversation, takes its lease, lets the agent write a reply, has the reply
audited, and then sends it or leaves it as a draft. It awaits at each of these points, and a newer
trigger may abort it at any of them; what it does next is for it to decide when the call that it
waits for is answered.

* **`RunPoint`** — the points at which a run awaits, with what it carries on from there.
* **`ConversationCall`** — the calls that change the conversation.
* **`HandlerRun.step`** — one step: a newer trigger aborts the run, or the pending call is answered.
-/

namespace Munin

open Foundations

/-! ### The conversation -/

/-- Who wrote a message, as the runtime names them. -/
inductive TurnAuthor where
  | user
  | agent
  | endUser
  | staff
  | system
  deriving DecidableEq

/-- A message of a conversation. -/
structure DetailMessage where
  id : String
  authorType : TurnAuthor
  body : String
  internal : Bool := false
  attachments : List Json := []
  metadata : Record := []

/-- `ConversationDetail`. Only staff claim conversations, so a claim is its holder. -/
structure ConversationDetail where
  status : ConversationStatus := .opened
  channelType : Option String := none
  channelId : Option String := none
  endUserId : Option String := none
  assigneeUserId : Option String := none
  claim : Option String := none
  agentMode : Option ConversationAgentMode := none
  voiceActive : Bool := false
  outreachCampaignId : Option String := none
  endUserLocale : Option String := none
  messages : List DetailMessage := []

/-- `parseAttachments(m.attachments).length > 0`: an entry with a media type. -/
def DetailMessage.hasAttachments (m : DetailMessage) : Bool :=
  m.attachments.any fun
    | .obj fields => truthy (Record.text fields "mime")
    | _ => false

/-- `lastPublicMessage`. -/
def lastPublicMessage (detail : ConversationDetail) : Option DetailMessage :=
  detail.messages.reverse.find? fun m => !m.internal

/-- `newestTurnIsSilent`. -/
def newestTurnIsSilent (detail : ConversationDetail) : Bool :=
  match lastPublicMessage detail with
  | none => false
  | some newest =>
    newest.authorType = .endUser && !newest.hasAttachments && isBlank newest.body

/-- A turn of the history that the runtime works with. -/
structure RuntimeTurn where
  authorType : TurnAuthor
  body : String

/-- `toRuntimeHistory`. -/
def toRuntimeHistory (detail : ConversationDetail) : List RuntimeTurn :=
  let visible := detail.messages.filter fun m =>
    !m.internal && (!isBlank m.body || m.hasAttachments)
  let answerable := visible.filter fun m => !truthy (m.metadata.text "suppressed")
  (if answerable.isEmpty then visible else answerable).map fun m =>
    ⟨if m.authorType = .user then .staff else m.authorType, m.body⟩

/-! ### What a run is asked for -/

/-- `RunMode`. -/
inductive RunMode where
  | reply
  | greet
  | draftRequest
  deriving DecidableEq

/-- `Delivery`. -/
inductive Delivery where
  | send
  | draft
  deriving DecidableEq

/-- `DraftOptions`. -/
structure DraftOptions where
  note : Option String := none
  language : Option String := none

/-- What the handler was created with. The hook `beforeGenerate` may be absent; the Markdown of a
reply is some function of what the provider wrote. -/
structure HandlerDeps where
  auditEnabled : Bool := true
  maxToolIterations : ℕ := 8
  beforeGenerate : Bool := false
  htmlToMarkdown : String → String := id

/-- `resolveDelivery`: whether the run goes on, and what becomes of its reply. -/
def resolveDelivery (detail : ConversationDetail) (mode : RunMode) (note : Option String) :
    Option Delivery :=
  if detail.channelType = some "voice" then none
  else if detail.voiceActive then none
  else if mode = .reply ∧ newestTurnIsSilent detail then none
  else if detail.status ≠ .opened then none
  else if truthy detail.assigneeUserId ∧ mode ≠ .draftRequest then none
  else if detail.agentMode = some .off then none
  else
    let delivery : Delivery :=
      if mode = .draftRequest ∨ detail.agentMode = some .draftOnly then .draft else .send
    if delivery = .draft ∧ mode = .greet then none
    else if delivery = .draft ∧ truthy detail.outreachCampaignId then none
    else if delivery = .send ∧ detail.claim.isSome then none
    else if !truthy detail.endUserId then none
    else if mode = .greet then some delivery
    else if mode = .draftRequest ∧ (trimOrNull note).isSome then some delivery
    else
      match lastPublicMessage detail with
      | none => none
      | some last => if last.authorType = .endUser then some delivery else none

/-- What a run carries along once it knows what becomes of its reply. -/
structure RunContext where
  detail : ConversationDetail
  mode : RunMode
  delivery : Delivery
  draft : DraftOptions := {}

namespace RunContext

variable (c : RunContext)

def sinceMessageId : Option String := c.detail.messages.getLast?.map (·.id)

def heldByHuman : Bool := c.detail.claim.isSome

end RunContext

/-! ### The calls of a run -/

/-- The locales with texts of their own. -/
def fallbackLocales : List String :=
  ["en", "nb", "nn", "da", "sv", "fi", "is", "et", "lv", "lt", "de", "fr", "es", "it", "pt", "nl",
    "pl", "cs", "sk", "hu", "ro"]

/-- `LOCALE_ALIASES`. -/
def localeAliases : List (String × String) :=
  [("no", "nb"), ("nob", "nb"), ("nor", "nb"), ("nno", "nn")]

/-- `pickFallback`. -/
def pickFallback (locale : Option String) : String :=
  match locale with
  | none => "en"
  | some locale =>
    let short := String.ofList ((locale.toList.map Char.toLower).takeWhile (· ≠ '-'))
    match localeAliases.lookup short with
    | some aliased => aliased
    | none => if short ∈ fallbackLocales then short else "en"

/-- The text of a public message: written by the agent, or one of the fixed texts of a locale. -/
inductive PublicText where
  | written (body : String)
  | fallbackGreet (locale : String)
  | fallbackHandover (locale : String)

/-- The calls that change the conversation. What a tool does is not for the run to know, so the
call of any tool is one of them. -/
inductive ConversationCall where
  | postAgentMessage (body : PublicText) (sinceMessageId : Option String) (greeting : Bool)
  | postInternalNote (body : String)
  | requestHandover (reason : String) (publicFallbackMessage : Option PublicText)
      (postSystemNote : Bool)
  | setDraftReply (body : String) (rationale note language : Option String)
      (toolNames : List String)
  | changeStatus (status : ConversationStatus) (snoozeHours : Option ℚ)
  | setTopic (topicId : String)
  | callTool (name : String) (reason : Option String)

/-- `ProviderErrorCode`. -/
inductive ProviderErrorCode where
  | auth
  | regional
  | rateLimit
  | modelNotFound
  | contextLength
  | other

def ProviderErrorCode.text : ProviderErrorCode → String
  | .auth => "provider_auth"
  | .regional => "provider_regional"
  | .rateLimit => "provider_rate_limit"
  | .modelNotFound => "provider_model_not_found"
  | .contextLength => "provider_context_length"
  | .other => "provider_other"

/-- A rejection: with a code, if the server gave one, and classified, if it comes from the
provider. -/
structure RunError where
  message : String
  code : Option String := none
  provider : Option ProviderErrorCode := none

/-- `errorCode`. -/
def RunError.errorCode (err : RunError) : Option String :=
  match err.provider with
  | some code => some code.text
  | none => err.code

/-- `TERMINAL_SKIP_CODES`. -/
def terminalSkipCodes : List String := ["handover_active", "agent_reply_race", "greet_superseded"]

def maxRetries : ℕ := 3

def handoverToolName : String := "conv_request_human"

/-- A tool call of the agent, with its argument `reason`. -/
structure ToolCall where
  name : String
  reason : Option String := none

/-- `AgentReply`. -/
structure AgentReply where
  body : String
  finishReason : String
  toolCalls : List ToolCall

/-- `AuditAction`. -/
inductive AuditAction where
  | requestHandover (reason : String)
  | closeConversation (reason : String)
  | snoozeConversation (untilHours : ℚ) (reason : String)
  | markSpam (reason : String)
  | setTopic (topicSlug : String) (reason : String)

/-- A topic of the organisation. -/
structure ConversationTopic where
  id : String
  slug : String

/-- `AuditOutcome`; `settleAfterSend` dispatches what is held until the reply is sent. -/
structure AuditOutcome where
  handoverReason : Option String := none
  spam : Bool := false
  rationale : Option String := none
  heldUntilSent : List AuditAction := []
  topics : List ConversationTopic := []

/-! ### The points of a run -/

/-- What follows once the tools are closed. -/
inductive AfterClose where
  /-- The run returns. -/
  | ret
  /-- The attempt failed. -/
  | retry (c : RunContext) (attempt : ℕ) (lastError : String)
  /-- The attempts are given up, for this reason. -/
  | break (c : RunContext) (reason : String)
  /-- They are given up, and the tools are closed a second time. -/
  | again (c : RunContext) (reason : String)

/-- The points at which a run awaits. -/
inductive RunPoint where
  | debouncing
  | reading
  | acquiring (c : RunContext)
  /-- The prompt of the channel is looked up. -/
  | describing (c : RunContext)
  /-- The gate is asked. -/
  | gating (c : RunContext)
  /-- The tools are opened. -/
  | opening (c : RunContext) (attempt : ℕ)
  /-- The agent lists its tools and loads the pictures of the history. -/
  | listing (c : RunContext) (attempt : ℕ)
  /-- The provider is asked for the next turn. -/
  | generating (c : RunContext) (attempt iteration : ℕ) (toolCalls : List ToolCall)
  /-- A tool is called. -/
  | calling (c : RunContext) (attempt iteration : ℕ) (toolCalls rest : List ToolCall)
  /-- The draft is rewritten in the language asked for. -/
  | rewriting (c : RunContext) (attempt : ℕ) (reply : AgentReply)
  | readingTopics (c : RunContext) (attempt : ℕ) (reply : AgentReply)
  | auditing (c : RunContext) (attempt : ℕ) (reply : AgentReply) (topics : List ConversationTopic)
  /-- An action of the audit is carried out. -/
  | dispatching (c : RunContext) (attempt : ℕ) (reply : AgentReply) (audit : AuditOutcome)
      (rest : List AuditAction)
  /-- The reply that a verdict of spam withholds is left as a draft. -/
  | parking
  /-- The reply is left as a draft for review. -/
  | drafting (c : RunContext) (attempt : ℕ)
  /-- The draft is flagged for review. -/
  | flagging
  | posting (c : RunContext) (attempt : ℕ) (reply : AgentReply) (audit : AuditOutcome)
  /-- An action that was held until the reply was sent is carried out. -/
  | settling (reply : AgentReply) (audit : AuditOutcome) (rest : List AuditAction)
  /-- The handover of this turn is noted. -/
  | noting
  | closing (next : AfterClose)
  | backingOff (c : RunContext) (attempt : ℕ) (left : attempt + 1 < maxRetries)
  | fallingBack
  | releasing
  | ended

/-- How the pending call is answered. -/
inductive HandlerAnswer where
  /-- It is done, with nothing to tell. -/
  | done
  | failed (err : RunError)
  | conversation (detail : ConversationDetail)
  | claim (acquired : Bool)
  /-- `GenerateVerdict`, with the title of its notice. -/
  | verdict (allowed : Bool) (notice : Option String)
  | response (body finishReason : String) (toolCalls : List ToolCall)
  | rewritten (text : String)
  | topics (items : List ConversationTopic)
  | audited (rationale : Option String) (actions : List AuditAction)

/-- Where a run goes, and the calls that change the conversation that it starts on the way. -/
structure NextPoint where
  point : RunPoint
  started : List ConversationCall := []

/-! ### What follows an answer

`aborted` is what the signal says when the run goes on. -/

/-- `fallBack`. -/
def fallBack (c : RunContext) (aborted : Bool) (reason : String) : NextPoint :=
  let locale := pickFallback c.detail.endUserLocale
  match c.mode with
  | .greet =>
    if aborted then ⟨.releasing, []⟩
    else ⟨.fallingBack, [.postAgentMessage (.fallbackGreet locale) c.sinceMessageId true]⟩
  | .draftRequest => ⟨.fallingBack, [.postInternalNote ("Draft request failed: " ++ reason)]⟩
  | .reply =>
    let text := if c.delivery = .send then some (PublicText.fallbackHandover locale) else none
    ⟨.fallingBack, [.requestHandover reason text true]⟩

/-- The start of an attempt. -/
def beginAttempt (c : RunContext) (aborted : Bool) (attempt : ℕ) : NextPoint :=
  if aborted then ⟨.releasing, []⟩ else ⟨.opening c attempt, []⟩

def retriesExhausted (lastError : String) : String :=
  "agent retries exhausted (" ++ lastError ++ ")"

/-- The end of an attempt that failed. -/
def afterAttempt (c : RunContext) (aborted : Bool) (attempt : ℕ) (lastError : String) :
    NextPoint :=
  if left : attempt + 1 < maxRetries then ⟨.backingOff c attempt left, []⟩
  else fallBack c aborted (retriesExhausted lastError)

/-- What follows `mcp.close()`. -/
def afterClose (aborted : Bool) : AfterClose → NextPoint
  | .ret => ⟨.releasing, []⟩
  | .retry c attempt lastError => afterAttempt c aborted attempt lastError
  | .break c reason => fallBack c aborted reason
  | .again c reason => ⟨.closing (.break c reason), []⟩

/-- The `catch` of an attempt. -/
def catchError (c : RunContext) (aborted : Bool) (attempt : ℕ) (err : RunError) : NextPoint :=
  if aborted then ⟨.closing .ret, []⟩
  else if err.errorCode.any (· ∈ terminalSkipCodes) then ⟨.closing .ret, []⟩
  else match err.provider with
    | some .contextLength => ⟨.closing (.break c (retriesExhausted err.message)), []⟩
    | some .auth => ⟨.closing (.again c "provider unavailable (provider_auth)"), []⟩
    | some .regional => ⟨.closing (.again c "provider unavailable (provider_regional)"), []⟩
    | _ => ⟨.closing (.retry c attempt err.message), []⟩

/-- The call of an action of the audit; a topic that does not exist starts none. -/
def auditActionCall (topics : List ConversationTopic) : AuditAction → Option ConversationCall
  | .requestHandover reason =>
    some (.callTool handoverToolName (some (if reason = "" then "audit pass" else reason)))
  | .closeConversation _ => some (.changeStatus .closed none)
  | .snoozeConversation untilHours _ => some (.changeStatus .snoozed (some untilHours))
  | .markSpam _ => some (.changeStatus .spam none)
  | .setTopic topicSlug _ =>
    match (topics.find? fun t => t.slug = topicSlug).map (·.id) with
    | none => none
    | some topicId => if topicId = "" then none else some (.setTopic topicId)

/-- The next of the actions that starts a call, and the actions after it. -/
def dispatchAuditActions (topics : List ConversationTopic) :
    List AuditAction → Option (ConversationCall × List AuditAction)
  | [] => none
  | action :: rest =>
    match auditActionCall topics action with
    | some call => some (call, rest)
    | none => dispatchAuditActions topics rest

/-- `parkForReview`. -/
def parkForReview (c : RunContext) (attempt : ℕ) (reply : AgentReply) (audit : AuditOutcome) :
    NextPoint :=
  let rationale := audit.rationale.filter (· ≠ "")
  let note := if c.mode = .draftRequest then trimOrNull c.draft.note else none
  let language := if c.mode = .draftRequest then c.draft.language.filter (· ≠ "") else none
  let toolNames := ((reply.toolCalls.map (·.name)).eraseDups).take 24
  ⟨.drafting c attempt, [.setDraftReply reply.body rationale note language toolNames]⟩

/-- The reason of a handover in this turn, whether the agent asked for it or the audit. -/
def handoverReason (reply : AgentReply) (audit : AuditOutcome) : Option String :=
  match (reply.toolCalls.find? fun t => t.name = handoverToolName).bind (·.reason) with
  | some reason => some reason
  | none => audit.handoverReason

/-- After the reply was sent: the actions that were held are carried out, then a handover is
noted. -/
def settleAfterSend (reply : AgentReply) (audit : AuditOutcome) (rest : List AuditAction) :
    NextPoint :=
  match dispatchAuditActions audit.topics rest with
  | some (call, rest) => ⟨.settling reply audit rest, [call]⟩
  | none =>
    match handoverReason reply audit with
    | none => ⟨.closing .ret, []⟩
    | some reason =>
      let body := if reason = "" then "Agent requested handover."
        else "Agent requested handover: " ++ reason
      ⟨.noting, [.postInternalNote body]⟩

/-- Once the audit is done: the reply is withheld, left as a draft, or posted. -/
def afterAudit (c : RunContext) (aborted : Bool) (attempt : ℕ) (reply : AgentReply)
    (audit : AuditOutcome) : NextPoint :=
  if aborted then ⟨.closing .ret, []⟩
  else if audit.spam then ⟨.parking, [.setDraftReply reply.body none none none []]⟩
  else if c.delivery = .draft then parkForReview c attempt reply audit
  else
    ⟨.posting c attempt reply audit,
      [.postAgentMessage (.written reply.body) c.sinceMessageId (c.mode = .greet)]⟩

/-- The actions of the audit are carried out, one after the other. -/
def dispatchAll (c : RunContext) (aborted : Bool) (attempt : ℕ) (reply : AgentReply)
    (audit : AuditOutcome) (rest : List AuditAction) : NextPoint :=
  match dispatchAuditActions audit.topics rest with
  | some (call, rest) => ⟨.dispatching c attempt reply audit rest, [call]⟩
  | none => afterAudit c aborted attempt reply audit

/-- `normaliseAction`: snoozes last, and topics are those of the catalogue. -/
def normaliseAction (topics : List ConversationTopic) : AuditAction → Bool
  | .snoozeConversation untilHours _ => 0 < untilHours
  | .setTopic topicSlug _ => topicSlug ≠ "" && topics.any fun t => t.slug = topicSlug
  | _ => true

def AuditAction.isHandover : AuditAction → Bool
  | .requestHandover _ => true
  | _ => false

def AuditAction.closesThread : AuditAction → Bool
  | .closeConversation _ | .snoozeConversation _ _ => true
  | _ => false

/-- The verdict of the audit: which actions are carried out now, and which are held. -/
def afterVerdict (c : RunContext) (aborted : Bool) (attempt : ℕ) (reply : AgentReply)
    (topics : List ConversationTopic) (rationale : Option String) (actions : List AuditAction) :
    NextPoint :=
  let agentCalledHandover := reply.toolCalls.any fun t => t.name = handoverToolName
  let candidates := (actions.filter (normaliseAction topics)).filter fun action =>
    !(action.isHandover && agentCalledHandover)
  let dispatched := candidates.filter fun action =>
    !(c.mode = .draftRequest && action.isHandover) && !action.closesThread
  let audit : AuditOutcome :=
    { handoverReason := dispatched.findSome? fun
        | .requestHandover reason => some reason
        | _ => none
      spam := dispatched.any fun
        | .markSpam _ => true
        | _ => false
      rationale
      heldUntilSent := if c.delivery = .send then candidates.filter (·.closesThread) else []
      topics }
  dispatchAll c aborted attempt reply audit dispatched

/-- `runAuditPass`, up to its first call. -/
def runAuditPass (deps : HandlerDeps) (c : RunContext) (aborted : Bool) (attempt : ℕ)
    (reply : AgentReply) : NextPoint :=
  let asks : RuntimeTurn → Bool := fun m => m.authorType = .endUser || m.authorType = .user
  if deps.auditEnabled && (toRuntimeHistory c.detail).any asks then
    ⟨.readingTopics c attempt reply, []⟩
  else afterAudit c aborted attempt reply {}

/-- The reply as it will be sent. -/
def afterRewrite (deps : HandlerDeps) (c : RunContext) (aborted : Bool) (attempt : ℕ)
    (reply : AgentReply) : NextPoint :=
  if aborted then ⟨.closing .ret, []⟩
  else if isBlank reply.body then
    ⟨.closing (.retry c attempt ("empty reply (finishReason=" ++ reply.finishReason ++ ")")), []⟩
  else if c.mode = .greet then afterAudit c aborted attempt reply {}
  else runAuditPass deps c aborted attempt reply

/-- `finishReason` of a reply. -/
def replyFinishReason (finishReason : String) : String :=
  if finishReason = "stop" ∨ finishReason = "length" then finishReason else "error"

/-- What the agent returned. -/
def afterReply (deps : HandlerDeps) (c : RunContext) (aborted : Bool) (attempt : ℕ)
    (rawReply : AgentReply) : NextPoint :=
  if aborted then ⟨.closing .ret, []⟩
  else
    let reply := { rawReply with body := deps.htmlToMarkdown rawReply.body }
    if c.mode = .draftRequest ∧ truthy c.draft.language ∧ !isBlank reply.body then
      ⟨.rewriting c attempt reply, []⟩
    else afterRewrite deps c aborted attempt reply

/-- An iteration of `runAgent`. -/
def iterateAgent (deps : HandlerDeps) (c : RunContext) (aborted : Bool) (attempt iteration : ℕ)
    (toolCalls : List ToolCall) : NextPoint :=
  if iteration < deps.maxToolIterations then
    if aborted then catchError c aborted attempt { message := "aborted" }
    else ⟨.generating c attempt iteration toolCalls, []⟩
  else
    afterReply deps c aborted attempt
      { body := "", finishReason := "tool_iteration_limit", toolCalls }

/-- The tool calls of a turn, one after the other. -/
def callTools (deps : HandlerDeps) (c : RunContext) (aborted : Bool) (attempt iteration : ℕ)
    (toolCalls : List ToolCall) : List ToolCall → NextPoint
  | [] => iterateAgent deps c aborted attempt (iteration + 1) toolCalls
  | call :: rest =>
    if aborted then catchError c aborted attempt { message := "aborted" }
    else
      ⟨.calling c attempt iteration (toolCalls ++ [call]) rest,
        [.callTool call.name call.reason]⟩

/-- The gate, once the prompts are there. -/
def askGate (deps : HandlerDeps) (c : RunContext) (aborted : Bool) : NextPoint :=
  if deps.beforeGenerate then ⟨.gating c, []⟩ else beginAttempt c aborted 0

/-- What a run does when the call that it waits for is answered; `none` where the call has no such
answer. -/
def proceed (deps : HandlerDeps) (mode : RunMode) (draft : DraftOptions) (aborted : Bool) :
    RunPoint → HandlerAnswer → Option NextPoint
  | .debouncing, .done => some (if aborted then ⟨.ended, []⟩ else ⟨.reading, []⟩)
  | .debouncing, .failed _ => some ⟨.ended, []⟩
  | .reading, .conversation detail =>
    some (match resolveDelivery detail mode draft.note with
      | none => ⟨.ended, []⟩
      | some delivery =>
        if aborted then ⟨.ended, []⟩ else ⟨.acquiring { detail, mode, delivery, draft }, []⟩)
  | .reading, .failed _ => some ⟨.ended, []⟩
  | .acquiring c, .claim acquired =>
    some (if acquired then
        if truthy c.detail.channelId then ⟨.describing c, []⟩ else askGate deps c aborted
      else ⟨.ended, []⟩)
  | .acquiring _, .failed _ => some ⟨.ended, []⟩
  | .describing c, .done => some (askGate deps c aborted)
  | .describing _, .failed _ => some ⟨.releasing, []⟩
  | .gating c, .verdict allowed notice =>
    some (if allowed then beginAttempt c aborted 0
      else match notice with
        | none => ⟨.releasing, []⟩
        | some title => fallBack c aborted title)
  | .gating c, .failed _ => some (beginAttempt c aborted 0)
  | .opening c attempt, .done => some ⟨.listing c attempt, []⟩
  | .opening _ _, .failed _ => some ⟨.releasing, []⟩
  | .listing c attempt, .done => some (iterateAgent deps c aborted attempt 0 [])
  | .listing c attempt, .failed err => some (catchError c aborted attempt err)
  | .generating c attempt iteration toolCalls, .response body finishReason calls =>
    some (if finishReason = "tool_calls" ∧ calls ≠ [] then
        callTools deps c aborted attempt iteration toolCalls calls
      else
        afterReply deps c aborted attempt
          { body, finishReason := replyFinishReason finishReason, toolCalls })
  | .generating c attempt _ _, .failed err => some (catchError c aborted attempt err)
  | .calling c attempt iteration toolCalls rest, .done =>
    some (callTools deps c aborted attempt iteration toolCalls rest)
  | .calling c attempt _ _ _, .failed err => some (catchError c aborted attempt err)
  | .rewriting c attempt reply, .rewritten text =>
    some (afterRewrite deps c aborted attempt
      { reply with body := if text = "" then reply.body else text })
  | .rewriting c attempt reply, .failed _ => some (afterRewrite deps c aborted attempt reply)
  | .readingTopics c attempt reply, .topics items => some ⟨.auditing c attempt reply items, []⟩
  | .readingTopics c attempt reply, .failed _ => some ⟨.auditing c attempt reply [], []⟩
  | .auditing c attempt reply topics, .audited rationale actions =>
    some (afterVerdict c aborted attempt reply topics rationale actions)
  | .auditing c attempt reply topics, .failed _ =>
    some (afterVerdict c aborted attempt reply topics none [])
  -- an action that fails is logged, and the next one follows
  | .dispatching c attempt reply audit rest, .done
  | .dispatching c attempt reply audit rest, .failed _ =>
    some (dispatchAll c aborted attempt reply audit rest)
  | .parking, .done | .parking, .failed _ => some ⟨.closing .ret, []⟩
  | .drafting c _, .done =>
    some (if c.heldByHuman then ⟨.closing .ret, []⟩
      else ⟨.flagging, [.requestHandover "draft reply ready for review" none false]⟩)
  | .drafting c attempt, .failed err => some (catchError c aborted attempt err)
  | .flagging, .done | .flagging, .failed _ => some ⟨.closing .ret, []⟩
  | .posting _ _ reply audit, .done => some (settleAfterSend reply audit audit.heldUntilSent)
  | .posting c attempt reply audit, .failed err =>
    some (if err.errorCode = some "agent_send_not_auto" then parkForReview c attempt reply audit
      else catchError c aborted attempt err)
  | .settling reply audit rest, .done | .settling reply audit rest, .failed _ =>
    some (settleAfterSend reply audit rest)
  | .noting, .done | .noting, .failed _ => some ⟨.closing .ret, []⟩
  | .closing next, .done | .closing next, .failed _ => some (afterClose aborted next)
  | .backingOff c attempt _, .done => some (beginAttempt c aborted (attempt + 1))
  | .backingOff _ _ _, .failed _ => some ⟨.releasing, []⟩
  | .fallingBack, .done | .fallingBack, .failed _ => some ⟨.releasing, []⟩
  | .releasing, .done | .releasing, .failed _ => some ⟨.ended, []⟩
  | _, _ => none

/-! ### Runs -/

/-- A run, with the calls that change the conversation that it has started, the newest last. -/
structure HandlerRun where
  mode : RunMode
  draft : DraftOptions := {}
  aborted : Bool := false
  point : RunPoint := .debouncing
  changes : List ConversationCall := []

/-- What may happen next. -/
inductive HandlerEvent where
  /-- A newer trigger aborts the run. -/
  | abort
  | answer (a : HandlerAnswer)

/-- The run, aborted. -/
def HandlerRun.abort (s : HandlerRun) : HandlerRun := { s with aborted := true }

/-- One step. -/
def HandlerRun.step (deps : HandlerDeps) (s : HandlerRun) : HandlerEvent → Option HandlerRun
  | .abort => some s.abort
  | .answer a => (proceed deps s.mode s.draft s.aborted s.point a).map fun next =>
    { s with point := next.point, changes := s.changes ++ next.started }

/-- The runs of a handler. -/
def handlerRuns (deps : HandlerDeps) : Machine HandlerRun HandlerEvent := ⟨HandlerRun.step deps⟩

end Munin
