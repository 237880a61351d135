import Munin.Journeys.Simulator
import Munin.Journeys.Validator

/-!
# The simulator and the runtime on one message

Before it publishes a journey, an organisation sees what the simulator makes of each message. The
simulator and the runtime build the input of the send policy apart: the runtime gives texts and
calls a quiet night where the settings name no quiet hours, the simulator does not.

* **`runtimePolicy`**, **`simulatorPolicy`** — the two inputs.
* **`decidedEarly`** — a decision that is made before any window is looked at.
* **`text_eq_iff`** — when the two decisions are the same.
* **`messageCourse`** — what becomes of a message under the simulator's assumptions.
* **`preview_agrees_iff`** — when the simulator reports what the runtime does.
-/

namespace Munin

open Foundations

/-! ### The runtime's policy -/

/-- `journeyQuietHours`. -/
def journeyQuietHours (channel : ChannelType) (quietHours : Option String) : Option String :=
  quietHours.or
    (if channel = .sms ∨ channel = .voice then some DEFAULT_PHONE_QUIET_HOURS else none)

/-- The policy that `executeMessage` proposes a message with. -/
def runtimePolicy (settings : JourneySettings) (node : MessageNode) : SendPolicy where
  channel := some node.channel
  class' := node.messageClass
  timezone := settings.timezone
  quietHours := journeyQuietHours node.channel settings.quietHours
  validDays := settings.validDays
  frequencyCapPerWeek := settings.frequencyCapPerWeek
  cooldownHoursAfterConversation := settings.cooldownHoursAfterConversation

/-- The decision of the send policy that the runtime acts on. -/
def runtimeDecision (facts : SimulationFacts) (spec : JourneySpec) (node : MessageNode)
    (contactId : String) : SendDecision :=
  checkSendPolicy facts.policy (runtimePolicy spec.settings node) facts.now contactId

/-! ### Decisions and quiet hours -/

section Windows

variable (facts : PolicyFacts) (policy : SendPolicy) (now : Instant)

/-- What is decided about a contact before any window is looked at. -/
def decidedEarly (id : String) : Bool :=
  match facts.contact id with
  | none => true
  | some contact =>
    (floorBlock facts policy contact).isSome || (capDefer facts policy now contact.id).isSome ||
      (policy.marketing && facts.assigned contact.id) ||
      (latestInbound facts policy now contact.id).isSome || policyDays facts policy = some []

/-- Whether a moment is in a contact's windows. -/
def inWindows (contact : PolicyContact) (t : Instant) : Bool :=
  sendable facts.localClock (resolveTimezone facts policy contact) (policyDays facts policy)
    (quietWindows facts policy) t

/-- The decision by the windows alone. -/
def windowText (fits : Instant → Bool) : String :=
  if fits now then "send" else if (searchTimes now).any fits then "defer" else "skip"

variable {facts policy now}

/-- A decision that is made early does not depend on the quiet hours. -/
theorem checkSendPolicy_of_early {id : String} (h : decidedEarly facts policy now id = true)
    (quietHours : Option String) :
    checkSendPolicy facts { policy with quietHours } now id
      = checkSendPolicy facts policy now id := by
  unfold decidedEarly at h
  unfold checkSendPolicy
  cases hcontact : facts.contact id with
  | none => rfl
  | some contact =>
    rw [hcontact] at h
    dsimp only at h ⊢
    have hfloor : floorBlock facts { policy with quietHours } contact
        = floorBlock facts policy contact := rfl
    rw [hfloor]
    cases hblock : floorBlock facts policy contact with
    | some reason => rfl
    | none =>
      rw [hblock] at h
      have hcap : capDefer facts { policy with quietHours } now contact.id
          = capDefer facts policy now contact.id := rfl
      have hinbound : latestInbound facts { policy with quietHours } now contact.id
          = latestInbound facts policy now contact.id := rfl
      have hdays : policyDays facts { policy with quietHours } = policyDays facts policy := rfl
      have hmarketing : SendPolicy.marketing { policy with quietHours } = policy.marketing := rfl
      have hcooldown : cooldownHours facts { policy with quietHours }
          = cooldownHours facts policy := rfl
      simp only [timing, hcap, hinbound, hdays, hmarketing, hcooldown]
      cases hput : capDefer facts policy now contact.id with
      | some until' => rfl
      | none =>
        cases hassigned : policy.marketing && facts.assigned contact.id with
        | true => rfl
        | false =>
          cases hwrote : latestInbound facts policy now contact.id with
          | some inbound => rfl
          | none =>
            simp only [hput, hassigned, hwrote, Option.isSome_none, Bool.or_false,
              Bool.false_or, decide_eq_true_eq] at h
            simp only [h, if_true]

/-- What the search for a window says. -/
theorem text_of_window (clock : LocalClock) (timezone : String) (days : Option (List Weekday))
    (windows : List String) :
    (match nextSendableTime clock now timezone days windows with
      | none => SendDecision.skip "no_send_window"
      | some window => if now < window then .defer window "quiet_hours" else .send).text
      = windowText now (sendable clock timezone days windows) := by
  rw [nextSendableTime, windowText]
  by_cases hnow : sendable clock timezone days windows now = true
  · rw [if_pos hnow, if_pos hnow]
    dsimp only
    rw [if_neg (lt_irrefl now)]
    rfl
  · rw [if_neg hnow, if_neg hnow]
    cases hfind : (searchTimes now).find? (sendable clock timezone days windows) with
    | none =>
      rw [List.find?_eq_none] at hfind
      rw [if_neg (by simpa using hfind)]
      rfl
    | some t =>
      have hmem := List.mem_of_find?_eq_some hfind
      have hfits := List.find?_some hfind
      have hlater : now < t := lt_of_le_of_ne (le_of_mem_searchTimes hmem)
        fun hsame => hnow (hsame ▸ hfits)
      rw [if_pos (List.any_eq_true.2 ⟨t, hmem, hfits⟩)]
      dsimp only
      rw [if_pos hlater]
      rfl

/-- **A decision that is not made early** is made by the windows. -/
theorem text_of_late {id : String} (h : decidedEarly facts policy now id = false) :
    ∃ contact, facts.contact id = some contact ∧
      (checkSendPolicy facts policy now id).text
        = windowText now (inWindows facts policy contact) := by
  unfold decidedEarly at h
  unfold checkSendPolicy
  cases hcontact : facts.contact id with
  | none =>
    rw [hcontact] at h
    cases h
  | some contact =>
    rw [hcontact] at h
    simp only [Bool.or_eq_false_iff, Option.isSome_eq_false_iff, Option.isNone_iff_eq_none,
      decide_eq_false_iff_not] at h
    obtain ⟨⟨⟨⟨hfloor, hcap⟩, hassigned⟩, hinbound⟩, hdays⟩ := h
    refine ⟨contact, rfl, ?_⟩
    dsimp only
    rw [hfloor]
    dsimp only
    rw [timing, hcap]
    dsimp only
    rw [hassigned, hinbound]
    dsimp only
    rw [if_neg (by simp), if_neg hdays]
    exact text_of_window facts.localClock _ _ _

/-- Whether a decision is made early does not depend on the quiet hours. -/
theorem decidedEarly_quietHours (quietHours : Option String) (id : String) :
    decidedEarly facts { policy with quietHours } now id = decidedEarly facts policy now id := rfl

/-- One more quiet window leaves out what is in it. -/
theorem inWindows_quietHours (facts : PolicyFacts) {window : String} (hchat : policy.chat = false)
    (hnone : policy.quietHours = none) (hwindow : window ≠ "") (contact : PolicyContact)
    (t : Instant) :
    inWindows facts { policy with quietHours := some window } contact t =
      (inWindows facts policy contact t &&
        !inTimeWindow (facts.localClock t (resolveTimezone facts policy contact)).2 window) := by
  have hwindows : quietWindows facts { policy with quietHours := some window }
      = quietWindows facts policy ++ [window] := by
    have hchat' : SendPolicy.chat { policy with quietHours := some window } = false := hchat
    have hmarketing : SendPolicy.marketing { policy with quietHours := some window }
        = policy.marketing := rfl
    unfold quietWindows
    rw [hchat', hchat, hnone, hmarketing]
    cases (if policy.marketing = true then facts.rules.quietHours else none) with
    | none => simp [hwindow]
    | some org => by_cases horg : org = "" <;> simp [hwindow, horg]
  unfold inWindows sendable
  rw [hwindows]
  have hzone : resolveTimezone facts { policy with quietHours := some window } contact
      = resolveTimezone facts policy contact := rfl
  have hdays : policyDays facts { policy with quietHours := some window }
      = policyDays facts policy := rfl
  rw [hzone, hdays]
  simp [List.any_append, Bool.and_assoc]

/-- A night beside other windows changes nothing: it is not night now if a message could go out, and
if one could go out later, then also outside the night. -/
def NightHarmless (now : Instant) (fits night : Instant → Bool) : Prop :=
  (fits now = true → night now = false) ∧
    (fits now = false → (∃ t ∈ searchTimes now, fits t = true) →
      ∃ t ∈ searchTimes now, fits t = true ∧ night t = false)

theorem windowText_eq_iff (fits night : Instant → Bool) :
    windowText now fits = windowText now (fun t => fits t && !night t) ↔
      NightHarmless now fits night := by
  unfold windowText NightHarmless
  cases hnow : fits now with
  | true =>
    cases hnight : night now with
    | false => simp [hnow, hnight]
    | true =>
      simp only [hnow, hnight, Bool.not_true, Bool.and_false, if_true, Bool.false_eq_true, if_false]
      split <;> simp
  | false =>
    by_cases hsome : ∃ t ∈ searchTimes now, fits t = true
    · by_cases hday : ∃ t ∈ searchTimes now, fits t = true ∧ night t = false
      · simp [hnow, hsome, hday]
      · simp [hnow, hsome, hday]
    · have hnone : ¬ ∃ t ∈ searchTimes now, fits t = true ∧ night t = false :=
        fun ⟨t, ht, hfits, _⟩ => hsome ⟨t, ht, hfits⟩
      simp [hnow, hsome, hnone]

end Windows

/-! ### The two decisions -/

section Decisions

variable (facts : SimulationFacts) (spec : JourneySpec) (node : MessageNode) (contactId : String)

/-- **When the missing night makes no difference** to the decision about a contact: the message goes
to no phone, the settings name quiet hours, the decision is made before any window is looked at, or
the night is harmless. -/
def PreviewSound : Prop :=
  (node.channel ≠ .sms ∧ node.channel ≠ .voice) ∨ spec.settings.quietHours.isSome = true ∨
    decidedEarly facts.policy (simulatorPolicy spec.settings node) facts.now contactId = true ∨
    ∀ contact, facts.policy.contact contactId = some contact →
      NightHarmless facts.now (inWindows facts.policy (simulatorPolicy spec.settings node) contact)
        fun t => inTimeWindow (facts.policy.localClock t
          (resolveTimezone facts.policy (simulatorPolicy spec.settings node) contact)).2
          DEFAULT_PHONE_QUIET_HOURS

variable {facts spec node contactId}

/-- The two policies differ in the quiet hours. -/
theorem runtimePolicy_eq : runtimePolicy spec.settings node =
    { simulatorPolicy spec.settings node with
      quietHours := journeyQuietHours node.channel spec.settings.quietHours } := rfl

/-- **When the two decisions are the same.** -/
theorem text_eq_iff : (simulatedDecision facts spec node contactId).text
      = (runtimeDecision facts spec node contactId).text ↔
    PreviewSound facts spec node contactId := by
  unfold simulatedDecision runtimeDecision PreviewSound
  rw [runtimePolicy_eq]
  by_cases hphone : node.channel ≠ .sms ∧ node.channel ≠ .voice
  · have hsame : journeyQuietHours node.channel spec.settings.quietHours
        = (simulatorPolicy spec.settings node).quietHours := by
      simp [journeyQuietHours, simulatorPolicy, hphone.1, hphone.2]
    rw [hsame]
    exact iff_of_true rfl (Or.inl hphone)
  · cases hquiet : spec.settings.quietHours with
    | some window =>
      have hsame : journeyQuietHours node.channel (some window)
          = (simulatorPolicy spec.settings node).quietHours := hquiet.symm
      rw [hsame]
      exact iff_of_true rfl (Or.inr (Or.inl rfl))
    | none =>
      have hnight : journeyQuietHours node.channel none = some DEFAULT_PHONE_QUIET_HOURS := by
        rw [journeyQuietHours, Option.none_or, if_pos (by tauto)]
      rw [hnight]
      cases hearly : decidedEarly facts.policy (simulatorPolicy spec.settings node) facts.now
          contactId with
      | true =>
        rw [checkSendPolicy_of_early hearly (some DEFAULT_PHONE_QUIET_HOURS)]
        exact iff_of_true rfl (Or.inr (Or.inr (Or.inl rfl)))
      | false =>
        obtain ⟨contact, hcontact, htext⟩ := text_of_late hearly
        obtain ⟨contact', hcontact', htext'⟩ := text_of_late
          ((decidedEarly_quietHours (some DEFAULT_PHONE_QUIET_HOURS) contactId).trans hearly)
        obtain rfl : contact = contact' := Option.some.inj (hcontact.symm.trans hcontact')
        have hchat : (simulatorPolicy spec.settings node).chat = false := by
          have hne : node.channel ≠ .chat := fun h => hphone (by simp [h])
          simp [SendPolicy.chat, simulatorPolicy, hne]
        have hwindows := funext fun t => inWindows_quietHours facts.policy hchat hquiet
          (by decide : DEFAULT_PHONE_QUIET_HOURS ≠ "") contact t
        rw [htext, htext', hwindows, windowText_eq_iff]
        simp [hphone, hcontact]

end Decisions

/-! ### The edges -/

/-- `canSendWithoutReview`. -/
def canSendWithoutReview (channel : ChannelType) (messageClass : MessageClass) : Bool :=
  if channel = .voice then false
  else decide (channel ≠ .sms) || decide (messageClass = .transactional)

/-- What `propose` returns for a new message, by the decision of the send policy; a template that
has changed holds the message until a moment. -/
def proposeAnswer (node : MessageNode) (decision : SendDecision) (held : Option Instant)
    (id : String) : ProposeResult :=
  if node.approval = .auto ∧ canSendWithoutReview node.channel node.messageClass = true then
    match decision with
    | .skip reason =>
      { id, status := .failed
        failureReason := some ("journey " ++ node.channel.text ++ " blocked: " ++ reason) }
    | .defer until' _ =>
      { id, status := .approved, scheduledSendAt := some (max until' (held.getD until')) }
    | .send =>
      match held with
      | some t => { id, status := .approved, scheduledSendAt := some t }
      | none => { id, status := .sent }
  else { id, status := .pending }

/-- A wait that was resolved. -/
def resolvedWait (wait : WaitSpec) (resolution : String) : JourneyWait where
  id := 0
  stepRunId := 0
  kind := wait.kind
  eventKey := wait.eventKey
  payload := wait.payload
  timeoutAt := wait.timeoutAt
  resolution := some resolution
  createdAt := 0

/-- The step of a run whose last event is that a call reached its contact. -/
def StepContext.reached (step : StepContext) : StepContext :=
  { step with
    enrollment := { step.enrollment with
      context := setField step.enrollment.context "lastEvent"
        (.obj [("payload", .obj [("outcome", .str "reached")])]) } }

/-- What becomes of an outcome in the end: a proposal that the policy does not refuse is sent, a
call reaches its contact and a chat message is seen. A proposal that it refuses is never sent, and
its wait runs out. -/
def courseFrom (env : StepEnv) (step : StepContext) (node : MessageNode) (decision : SendDecision) :
    Outcome → Outcome
  | .wait wait output _ =>
    let resolution :=
      if wait.kind = .event then "event"
      else if decision.text = "skip" then "timeout" else "proposal_sent"
    match resumeMessage env step node (output.getD []) (resolvedWait wait resolution) with
    | .wait wait output' _ =>
      resumeMessage env step.reached node (output'.getD []) (resolvedWait wait "event")
    | outcome => outcome
  | outcome => outcome

/-- **The course of a message** under the simulator's assumptions: reviewers approve, and what the
policy does not refuse arrives. -/
def messageCourse (env : StepEnv) (step : StepContext) (node : MessageNode)
    (decision : SendDecision) (held : Option Instant) (f : EnrollmentFile) : Outcome :=
  let env := { env with propose := proposeAnswer node decision held }
  courseFrom env step node decision (sendMessage env step node [] f).2

/-- The edge that an outcome takes. -/
def Outcome.edge : Outcome → Option (String × Option NodeId)
  | .advance label to' _ _ => some (label, to')
  | _ => none

/-- The edge that the simulator takes. -/
def SimulatedMove.taken : SimulatedMove → Option (String × Option NodeId)
  | .edge label to' => some (label, to')
  | .exit _ => none

/-- The edge that a message leads to, by the text of its decision. -/
def messageEdge (node : MessageNode) (decision : String) : Option (String × Option NodeId) :=
  if node.approval = .off then some ("next", node.next)
  else if decision = "skip" then none
  else if node.channel = .voice then
    let reached := (node.onOutcome.getD {}).get .reached
    some (if truthy reached then ("outcome_reached", reached) else ("next", node.next))
  else some ("next", node.next)

theorem taken_simulateStep (facts : SimulationFacts) (spec : JourneySpec) (journeyId : String)
    (node : MessageNode) {contact : SampleContact} (hcontact : contact.company = false) :
    (simulateStep facts spec journeyId (.message node) contact).move.taken
      = messageEdge node (simulatedDecision facts spec node contact.id).text := by
  unfold simulateStep messageEdge simulateMessage
  dsimp only
  rw [hcontact]
  by_cases hoff : node.approval = .off
  · rw [if_pos hoff, if_pos hoff]
    rfl
  · rw [if_neg hoff, if_neg hoff, if_neg Bool.false_ne_true]
    split
    · rfl
    · split
      · dsimp only
        split <;> rfl
      · rfl

section Course

variable {env : StepEnv} {step : StepContext} {node : MessageNode}

variable {previous : Record}

variable {wait : JourneyWait} {decision : SendDecision}

/-- A chat message that is seen goes on with `next`. -/
theorem edge_of_seen (hchat : node.channel = .chat)
    (hawaiting : previous.lookup "awaitingSeen" = some (.bool true))
    (hresolution : wait.resolution = some "event") :
    (resumeMessage env step node previous wait).edge = some ("next", node.next) := by
  rw [resumeMessage, hawaiting, if_pos (by simp [hchat, jsTruthy]), hresolution]
  simp [Outcome.edge, truthy]

/-- A chat message that was sent: the run goes on, or waits for it to be seen. -/
theorem awaitChatSeen_cases (env : StepEnv) (node : MessageNode) (previous : Record)
    (proposalId : Option Json) :
    (awaitChatSeen env node previous proposalId).edge = some ("next", node.next) ∧
        (∀ wait output reason, awaitChatSeen env node previous proposalId
          ≠ .wait wait output reason) ∨
      ∃ wait output reason, awaitChatSeen env node previous proposalId
          = .wait wait (some output) reason ∧ wait.kind = .event ∧
        output.lookup "awaitingSeen" = some (.bool true) := by
  unfold awaitChatSeen
  dsimp only
  split
  · exact Or.inl ⟨rfl, fun _ _ _ h => by cases h⟩
  · exact Or.inr ⟨_, _, _, rfl, rfl, lookup_setField_self _ _ _⟩

/-- A call that reaches its contact. -/
theorem edge_of_reached (hvoice : node.channel = .voice)
    (hawaiting : previous.lookup "awaitingOutcome" = some (.bool true))
    (hresolution : wait.resolution = some "event")
    (hreached : (node.onOutcome.getD {}).get .reached ≠ some "") :
    (resumeMessage env step.reached node previous wait).edge =
      some (if truthy ((node.onOutcome.getD {}).get .reached) then
        ("outcome_reached", (node.onOutcome.getD {}).get .reached) else ("next", node.next)) := by
  have houtcome : reportedOutcome step.reached wait = "reached" := by
    rw [reportedOutcome, hresolution, if_neg (by simp)]
    dsimp only [StepContext.reached, Record.object]
    rw [lookup_setField_self]
    rfl
  rw [resumeMessage, if_neg (by simp [hvoice]), hawaiting, if_pos (by simp [hvoice, jsTruthy]),
    houtcome]
  have hmapped : node.outcomeEdge "reached" = (node.onOutcome.getD {}).get .reached := rfl
  dsimp only
  rw [hmapped]
  cases hto : (node.onOutcome.getD {}).get .reached with
  | none => rfl
  | some id =>
    have hid : id ≠ "" := fun h => hreached (h ▸ hto)
    simp [Outcome.edge, truthy, hid]

/-- A proposal that is waited for and sent in the end. -/
theorem edge_of_sent {wait : WaitSpec}
    (hfresh : previous.lookup "awaitingSeen" = none ∧ previous.lookup "awaitingOutcome" = none)
    (hreached : (node.onOutcome.getD {}).get .reached ≠ some "") :
    (match resumeMessage env step node previous (resolvedWait wait "proposal_sent") with
      | .wait wait output _ =>
        resumeMessage env step.reached node (output.getD []) (resolvedWait wait "event")
      | outcome => outcome).edge =
      some (if node.channel = .voice then
          if truthy ((node.onOutcome.getD {}).get .reached) then
            ("outcome_reached", (node.onOutcome.getD {}).get .reached)
          else ("next", node.next)
        else ("next", node.next)) := by
  rw [resumeMessage, hfresh.1, hfresh.2, if_neg (by simp [jsTruthy]),
    if_neg (by simp [jsTruthy])]
  dsimp only [resolvedWait]
  cases hchannel : node.channel with
  | voice =>
    exact edge_of_reached hchannel (lookup_setField_self _ _ _) rfl hreached
  | chat =>
    dsimp only
    rcases awaitChatSeen_cases env node previous (previous.lookup "proposalId")
      with ⟨hedge, hdone⟩ | ⟨wait, output, reason, hwait, -, hawaiting⟩
    · split
      · rename_i h
        exact absurd h (hdone _ _ _)
      · exact hedge
    · rw [hwait]
      exact edge_of_seen hchannel hawaiting rfl
  | email => rfl
  | sms => rfl

/-- What `executeMessage` makes of the proposal of a new message. -/
theorem sendMessage_of_contact {contactId : String}
    (hcontact : step.enrollment.contactId = some contactId) (hne : contactId ≠ "")
    (hoff : node.approval ≠ .off) (f : EnrollmentFile) :
    (sendMessage env step node [] f).2 =
      match (env.propose contactId).status with
      | .sent =>
        if node.channel = .chat then
          awaitChatSeen env node [] (some (.str (env.propose contactId).id))
        else .next node.next "sent" (some [("proposalId", .str (env.propose contactId).id)])
      | .failed => .exit "message_blocked"
          (some [("proposalId", .str (env.propose contactId).id),
            ("error", textOrNull (env.propose contactId).failureReason)])
      | status => .wait
          { kind := .proposal, payload := [("proposalId", .str (env.propose contactId).id)],
            timeoutAt :=
              (env.propose contactId).scheduledSendAt.getD env.now + APPROVAL_TIMEOUT_MS }
          (some [("proposalId", .str (env.propose contactId).id), ("status", .str status.text)])
          (if status = .approved then "scheduled" else "awaiting review") := by
  have hfilter : step.enrollment.contactId.filter (· ≠ "") = some contactId := by
    rw [hcontact]
    simp [hne]
  rw [sendMessage, if_neg hoff, hfilter]
  dsimp only
  cases (env.propose contactId).status with
  | sent =>
    dsimp only
    split <;> rfl
  | pending | approved | failed | dismissed | withdrawn => rfl

/-- A message that is open after it was proposed: it is sent in the end, or refused. -/
theorem edge_of_open {output : Record} {wait : WaitSpec} {reason : Option String}
    (hkind : wait.kind = .proposal)
    (hfresh : output.lookup "awaitingSeen" = none ∧ output.lookup "awaitingOutcome" = none)
    (hoff : node.approval ≠ .off) (hreached : (node.onOutcome.getD {}).get .reached ≠ some "") :
    (courseFrom env step node decision (.wait wait (some output) reason)).edge
      = messageEdge node decision.text := by
  have hne : wait.kind ≠ .event := by simp [hkind]
  rw [messageEdge, if_neg hoff, courseFrom, if_neg hne, Option.getD_some]
  by_cases hskip : decision.text = "skip"
  · rw [if_pos hskip, if_pos hskip, resumeMessage, hfresh.1, hfresh.2,
      if_neg (by simp [jsTruthy]), if_neg (by simp [jsTruthy])]
    rfl
  · rw [if_neg hskip, if_neg hskip, edge_of_sent hfresh hreached]
    split <;> rfl

/-- A chat message that was sent at once. -/
theorem edge_of_chat {proposalId : Option Json} (hchat : node.channel = .chat) :
    (courseFrom env step node decision (awaitChatSeen env node previous proposalId)).edge
      = some ("next", node.next) := by
  rcases awaitChatSeen_cases env node previous proposalId
    with ⟨hedge, hdone⟩ | ⟨wait, output, reason, hwait, hkind, hawaiting⟩
  · unfold courseFrom
    split
    · rename_i h
      exact absurd h (hdone _ _ _)
    · exact hedge
  · rw [hwait, courseFrom, if_pos hkind, Option.getD_some]
    have hseen : (resumeMessage env step node output (resolvedWait wait "event")).edge
        = some ("next", node.next) := edge_of_seen hchat hawaiting rfl
    split
    · rename_i h
      rw [h] at hseen
      cases hseen
    · exact hseen

/-- **The edge that the runtime takes**, by the text of its decision. -/
theorem edge_messageCourse {contactId : String}
    (hcontact : step.enrollment.contactId = some contactId) (hne : contactId ≠ "")
    (hreached : (node.onOutcome.getD {}).get .reached ≠ some "")
    (decision : SendDecision) (held : Option Instant) (f : EnrollmentFile) :
    (messageCourse env step node decision held f).edge = messageEdge node decision.text := by
  by_cases hoff : node.approval = .off
  · rw [messageCourse, messageEdge, sendMessage, if_pos hoff, if_pos hoff]
    rfl
  · rw [messageCourse, sendMessage_of_contact hcontact hne hoff]
    dsimp only
    by_cases hauto : node.approval = .auto ∧
        canSendWithoutReview node.channel node.messageClass = true
    · cases decision with
      | skip reason =>
        rw [messageEdge, if_neg hoff, proposeAnswer, if_pos hauto]
        rfl
      | defer until' reason =>
        rw [proposeAnswer, if_pos hauto]
        exact edge_of_open rfl ⟨rfl, rfl⟩ hoff hreached
      | send =>
        have hanswer : proposeAnswer node .send held contactId = match held with
            | some t => { id := contactId, status := .approved, scheduledSendAt := some t }
            | none => { id := contactId, status := .sent } := if_pos hauto
        rw [hanswer]
        cases held with
        | some t => exact edge_of_open rfl ⟨rfl, rfl⟩ hoff hreached
        | none =>
          have hvoice : node.channel ≠ .voice := by
            intro hvoice
            rw [canSendWithoutReview, if_pos hvoice] at hauto
            exact Bool.false_ne_true hauto.2
          have hedge : messageEdge node SendDecision.send.text = some ("next", node.next) := by
            rw [messageEdge, if_neg hoff, if_neg (by decide), if_neg hvoice]
          rw [hedge]
          dsimp only
          by_cases hchat : node.channel = .chat
          · rw [if_pos hchat]
            exact edge_of_chat hchat
          · rw [if_neg hchat]
            rfl
    · have hanswer : proposeAnswer node decision held contactId
          = { id := contactId, status := .pending } := if_neg hauto
      rw [hanswer]
      exact edge_of_open rfl ⟨rfl, rfl⟩ hoff hreached

end Course

/-! ### When the preview is right -/

/-- **What a preview promises** of a message: the decision that the simulator reports is the one the
runtime acts on, and so is the edge. -/
def PreviewAgrees (facts : SimulationFacts) (spec : JourneySpec) (journeyId : String)
    (node : MessageNode) (contact : SampleContact) (env : StepEnv) (step : StepContext)
    (held : Option Instant) (f : EnrollmentFile) : Prop :=
  (node.approval ≠ .off → (simulatedDecision facts spec node contact.id).text
      = (runtimeDecision facts spec node contact.id).text) ∧
    (simulateStep facts spec journeyId (.message node) contact).move.taken
      = (messageCourse env step node (runtimeDecision facts spec node contact.id) held f).edge

/-- The ids of a node that conforms are not empty. -/
theorem reached_ne_of_conforms {node : MessageNode}
    (h : (JourneyNode.message node).conforms = true) :
    (node.onOutcome.getD {}).get .reached ≠ some "" := by
  intro hempty
  simp only [JourneyNode.conforms, Bool.and_eq_true] at h
  have hall : (CallOutcome.all.all fun outcome =>
      ((node.onOutcome.getD {}).get outcome).all isNodeId) = true := by tauto
  have hreached := List.all_eq_true.1 hall .reached (by decide)
  rw [hempty] at hreached
  exact absurd hreached (by decide)

/-- **When the preview of a message is right**: exactly if the message is switched off or the night
that the simulator leaves out makes no difference. -/
theorem preview_agrees_iff (facts : SimulationFacts) (spec : JourneySpec) (journeyId : String)
    (node : MessageNode) (contact : SampleContact) (env : StepEnv) (step : StepContext)
    (held : Option Instant) (f : EnrollmentFile)
    (hconforms : spec.conforms = true) (hnode : .message node ∈ spec.nodes)
    (hcontact : contact.company = false)
    (hstep : step.enrollment.contactId = some contact.id) (hid : contact.id ≠ "") :
    PreviewAgrees facts spec journeyId node contact env step held f ↔
      node.approval = .off ∨ PreviewSound facts spec node contact.id := by
  have hreached := reached_ne_of_conforms (JourneySpec.conforms_node hconforms hnode)
  have hedges := taken_simulateStep facts spec journeyId node hcontact
  have hcourse : (messageCourse env step node (runtimeDecision facts spec node contact.id) held
      f).edge = _ := edge_messageCourse hstep hid hreached _ held f
  unfold PreviewAgrees
  rw [hedges, hcourse]
  by_cases hoff : node.approval = .off
  · refine iff_of_true ⟨fun hon => absurd hoff hon, ?_⟩ (Or.inl hoff)
    rw [messageEdge, messageEdge, if_pos hoff, if_pos hoff]
  · rw [← text_eq_iff]
    constructor
    · exact fun h => Or.inr (h.1 hoff)
    · rintro (h | htext)
      · exact absurd h hoff
      · exact ⟨fun _ => htext, by rw [htext]⟩

/-! ### A text at night -/

/-- A text about an order, sent without review. -/
def nightText : MessageNode where
  id := "text"
  channel := .sms
  messageClass := .transactional
  content := { body := "Your order is ready." }
  approval := .auto

def nightSpec : JourneySpec where
  entry := { trigger := .manual }
  goal := some { event := "order.collected", windowDays := 7 }
  settings := { smsChannelId := some "sms" }
  start := "text"
  nodes := [.message nightText]

/-- A contact with a phone, at an hour of the day in UTC. -/
def nightFacts (hour : Int) : SimulationFacts where
  now := hour * 3600000
  policy :=
    { contact := fun id => some { id, phone := some "+4712345678" }
      localClock := fun t _ => (.mon, (t / 60000 % 1440).toNat) }

/-- The run of the contact. -/
def nightStep : StepContext where
  run :=
    { id := 0, nodeId := "text", nodeType := some .message, version := 1, visit := 1
      status := .running }
  enrollment :=
    { id := "e", journeyId := "j", version := 1, contactId := some "c", subjectKey := "c:c" }
  spec := nightSpec

/-- At ten in the evening the simulator sends the text, and the runtime waits until the morning. -/
theorem preview_at_night : ¬ ∀ (facts : SimulationFacts) (spec : JourneySpec) (journeyId : String)
    (node : MessageNode) (contact : SampleContact) (env : StepEnv) (step : StepContext)
    (held : Option Instant) (f : EnrollmentFile),
    spec.conforms = true → (validateJourneySpec (fun _ => {}) spec {}).valid = true →
      .message node ∈ spec.nodes → contact.company = false →
        step.enrollment.contactId = some contact.id → contact.id ≠ "" →
          PreviewAgrees facts spec journeyId node contact env step held f := by
  intro hall
  have hagrees := hall (nightFacts 22) nightSpec "j" nightText { id := "c" }
    { now := 0, clock := 0 } nightStep none { row := nightStep.enrollment } (by decide)
    (by decide +kernel) (by simp [nightSpec])
    rfl rfl (by decide)
  exact absurd (hagrees.1 (by decide)) (by decide +kernel)

/-- At noon the preview is right. -/
theorem preview_at_noon :
    PreviewAgrees (nightFacts 12) nightSpec "j" nightText { id := "c" } { now := 0, clock := 0 }
      nightStep none { row := nightStep.enrollment } := by
  refine (preview_agrees_iff _ _ _ _ _ _ _ _ _ (by decide) (by simp [nightSpec]) rfl rfl
    (by decide)).2 (Or.inr ?_)
  refine text_eq_iff.1 ?_
  decide +kernel

end Munin
