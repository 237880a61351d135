import Mathlib.Data.List.Sort
import Mathlib.Tactic.Linarith
import Munin.Foundations.SlidingWindow
import Munin.Journeys.Spec
import Munin.Outreach.Broadcast

/-!
# The send policy

Whether a message may go out to a contact now, later or not at all: the organisation's send rules
and the message's own policy, on what is known of the contact.

* **`nextSendableTime`** — the next moment on an allowed weekday and outside every quiet window.
* **`floorBlock`** — what stops a message whatever the time.
* **`checkSendPolicy`** — the decision for a contact; `checkSendPolicyBatch` makes it for each of
  several.
* **`cap_of_passes`** — a message that is not put off has room under its cap.

The clock of a time zone and which texts name a zone come from `Intl`; they are parameters.
-/

namespace Munin

open Foundations

/-! ### Send windows -/

def STEP_MS : Int := 15 * 60000
def SEARCH_LIMIT_MS : Int := 8 * 86400000
def WEEK_MS : Int := 7 * 86400000
def ASSIGNED_RECHECK_MS : Int := 60 * 60000

/-- `localClock`: the weekday and the minute of the day in a time zone. -/
abbrev LocalClock := Instant → String → Weekday × Nat

/-- The minutes of a clock text. -/
def clockMinutes (h h' m m' : Char) : Nat :=
  let digit := fun c : Char => c.toNat - '0'.toNat
  (10 * digit h + digit h') * 60 + (10 * digit m + digit m')

/-- `inTimeWindow`; a text that is no window has nothing in it. -/
def inTimeWindow (minutes : Nat) (window : String) : Bool :=
  match window.toList with
  | [a, b, ':', c, d, '-', e, f, ':', g, h] =>
    let from' := clockMinutes a b c d
    let to' := clockMinutes e f g h
    if from' ≤ to' then from' ≤ minutes && minutes < to' else from' ≤ minutes || minutes < to'
  | _ => false

example : [inTimeWindow 1300 "21:00-08:00", inTimeWindow 60 "21:00-08:00",
    inTimeWindow 600 "21:00-08:00", inTimeWindow 0 "00:00-00:00"] = [true, true, false, false] := by
  decide

/-- Whether a moment is on an allowed weekday and outside every quiet window. -/
def sendable (localClock : LocalClock) (timezone : String) (validDays : Option (List Weekday))
    (quietWindows : List String) (at' : Instant) : Bool :=
  let clock := localClock at' timezone
  (validDays.all fun days => decide (clock.1 ∈ days)) &&
    !quietWindows.any (inTimeWindow clock.2)

/-- The quarters of an hour that a search looks at, from the first one not before a moment. -/
def searchTimes (from' : Instant) : List Instant :=
  let start := -(-from' / STEP_MS) * STEP_MS
  ((List.range 769).map fun i : Nat => start + i * STEP_MS).filter fun t =>
    decide (t - from' ≤ SEARCH_LIMIT_MS)

/-- `nextSendableTime`. -/
def nextSendableTime (localClock : LocalClock) (from' : Instant) (timezone : String)
    (validDays : Option (List Weekday)) (quietWindows : List String) : Option Instant :=
  let fits := sendable localClock timezone validDays quietWindows
  if fits from' then some from' else (searchTimes from').find? fits

/-- The search begins no earlier than the moment asked for. -/
theorem le_of_mem_searchTimes {from' t : Instant} (h : t ∈ searchTimes from') : from' ≤ t := by
  obtain ⟨i, -, rfl⟩ := List.mem_map.1 (List.mem_filter.1 h).1
  have hfloor : -from' / STEP_MS * STEP_MS ≤ -from' := Int.ediv_mul_le _ (by decide)
  have hstep : (0 : Int) ≤ i * STEP_MS := Int.mul_nonneg (Int.natCast_nonneg i) (by decide)
  have hstart : -(-from' / STEP_MS) * STEP_MS = -(-from' / STEP_MS * STEP_MS) := Int.neg_mul _ _
  rw [hstart]
  linarith

/-! ### Rules, policies and facts -/

/-- `SendRules`: what an organisation asks of its marketing. -/
structure SendRules where
  timezone : String := "UTC"
  quietHours : Option String := none
  validDays : Option (List Weekday) := none
  weeklyCap : Option Nat := none
  cooldownHoursAfterConversation : Nat := 0

/-- `SendRulesInput`, but for the time zone. -/
def SendRules.conforms (rules : SendRules) : Bool :=
  rules.quietHours.all isTimeWindow &&
    (rules.validDays.all fun days => 1 ≤ days.length && days.length ≤ 7) &&
    (rules.weeklyCap.all fun cap => 1 ≤ cap && cap ≤ 50) &&
    rules.cooldownHoursAfterConversation ≤ 720

/-- `SendPolicy`: what a message asks for. -/
structure SendPolicy where
  channel : Option ChannelType := none
  class' : MessageClass
  timezone : Option String := none
  quietHours : Option String := none
  validDays : Option (List Weekday) := none
  frequencyCapPerWeek : Option Nat := none
  cooldownHoursAfterConversation : Nat := 0

/-- `ContactFacts` of the send policy. -/
structure PolicyContact where
  id : String
  email : Option String := none
  phone : Option String := none
  endUserId : Option String := none
  doNotContact : Bool := false
  unsubscribedAt : Option Instant := none
  consentLawfulBasis : Option String := none
  /-- `customFields.timezone`, if it is a text. -/
  timezone : Option String := none

/-- What the queries find. -/
structure PolicyFacts where
  rules : SendRules := {}
  contact : String → Option PolicyContact := fun _ => none
  contact_id : ∀ id c, contact id = some c → c.id = id := by simp
  /-- The end users that have signed in. -/
  signedIn : String → Bool := fun _ => false
  /-- The addresses, in any case, that mail does not reach. -/
  undeliverable : String → Bool := fun _ => false
  /-- When marketing messages were sent to a contact. -/
  sendTimes : String → List Instant := fun _ => []
  /-- The contacts with an open conversation that is assigned to somebody. -/
  assigned : String → Bool := fun _ => false
  /-- When a contact wrote. -/
  inboundTimes : String → List Instant := fun _ => []
  isTimezone : String → Bool := fun _ => true
  localClock : LocalClock := fun _ _ => (.mon, 0)

namespace SendPolicy

variable (policy : SendPolicy)

def marketing : Bool := policy.class' = .marketing

/-- Whether the message goes to a phone. -/
def sms : Bool := policy.channel = some .sms || policy.channel = some .voice

def chat : Bool := policy.channel = some .chat

end SendPolicy

/-- `minDefined` of two numbers. -/
def minDefined : Option Nat → Option Nat → Option Nat
  | some a, some b => some (min a b)
  | some a, none => some a
  | none, b => b

/-- `intersectDays`. -/
def intersectDays : Option (List Weekday) → Option (List Weekday) → Option (List Weekday)
  | none, b => b
  | some a, none => some a
  | some a, some b => some (a.filter fun day => decide (day ∈ b))

section Decision

variable (facts : PolicyFacts) (policy : SendPolicy) (now : Instant)

/-- `floorBlock`. -/
def floorBlock (contact : PolicyContact) : Option String :=
  if contact.doNotContact then some "do_not_contact"
  else if policy.chat && !contact.endUserId.any fun id => id ≠ "" && facts.signedIn id then
    some "no_chat_identity"
  else if !policy.chat && policy.sms && !truthy contact.phone then some "no_phone"
  else if !policy.chat && !policy.sms && !truthy contact.email then some "no_email"
  else if policy.marketing && contact.unsubscribedAt.isSome then some "unsubscribed"
  else if policy.marketing && !truthy contact.consentLawfulBasis then some "no_lawful_basis"
  else if !policy.sms && !policy.chat && truthy contact.email &&
      contact.email.any facts.undeliverable then
    some "undeliverable"
  else none

/-- The cap of a message: the smaller one of the organisation's and its own. -/
def weeklyCapOf : Option Nat :=
  minDefined (if policy.marketing then facts.rules.weeklyCap else none)
    (if policy.marketing then policy.frequencyCapPerWeek else none)

def cooldownHours : Nat :=
  if policy.marketing then
    max facts.rules.cooldownHoursAfterConversation policy.cooldownHoursAfterConversation
  else 0

/-- The marketing messages of the week, in their order. -/
def weekTimes (id : String) : List Instant :=
  ((facts.sendTimes id).filter fun t => decide (now - WEEK_MS ≤ t)).insertionSort (· ≤ ·)

/-- How long the cap puts a message off, if it does; a cap of zero is none. -/
def capDefer (id : String) : Option Instant :=
  match weeklyCapOf facts policy with
  | none | some 0 => none
  | some (cap + 1) =>
    let times := weekTimes facts now id
    if cap + 1 ≤ times.length then (times[times.length - (cap + 1)]?).map (· + WEEK_MS) else none

/-- `latestInboundAt`, where a cooldown asks for it. -/
def latestInbound (id : String) : Option Instant :=
  let hours := cooldownHours facts policy
  if policy.marketing && 0 < hours then
    ((facts.inboundTimes id).filter fun t => decide (now - hours * 3600000 ≤ t)).max?
  else none

/-- `resolveTimezone`. -/
def resolveTimezone (contact : PolicyContact) : String :=
  (([contact.timezone, policy.timezone, some facts.rules.timezone].filterMap id).find?
    facts.isTimezone).getD "UTC"

/-- The weekdays on which the message may go out. -/
def policyDays : Option (List Weekday) :=
  intersectDays (if policy.marketing then facts.rules.validDays else none) policy.validDays

/-- The windows in which it may not. -/
def quietWindows : List String :=
  if policy.chat then []
  else ([if policy.marketing then facts.rules.quietHours else none, policy.quietHours].filterMap
    id).filter (· ≠ "")

/-- The moment at which the message's windows are open. -/
def sendWindow (contact : PolicyContact) : Option Instant :=
  nextSendableTime facts.localClock now (resolveTimezone facts policy contact)
    (policyDays facts policy) (quietWindows facts policy)

/-- The decision for a contact that no floor stops. -/
def timing (contact : PolicyContact) : SendDecision :=
  match capDefer facts policy now contact.id with
  | some until' => .defer until' "frequency_cap"
  | none =>
    if policy.marketing && facts.assigned contact.id then
      .defer (now + ASSIGNED_RECHECK_MS) "conversation_assigned"
    else match latestInbound facts policy now contact.id with
      | some inbound =>
        .defer (inbound + cooldownHours facts policy * 3600000) "recent_conversation"
      | none =>
        if policyDays facts policy = some [] then .skip "no_valid_days"
        else match sendWindow facts policy now contact with
          | none => .skip "no_send_window"
          | some window => if now < window then .defer window "quiet_hours" else .send

/-- The decision of `checkSendPolicy`, which `checkSendPolicyBatch` makes for each contact by
itself. -/
def checkSendPolicy (id : String) : SendDecision :=
  match facts.contact id with
  | none => .skip "contact_missing"
  | some contact =>
    match floorBlock facts policy contact with
    | some reason => .skip reason
    | none => timing facts policy now contact

end Decision

/-! ### What the decisions say -/

section

variable {facts : PolicyFacts} {policy : SendPolicy} {now : Instant} {id : String}

/-- The times of the week are those not before it. -/
theorem mem_weekTimes {t : Instant} (h : t ∈ weekTimes facts now id) : now - WEEK_MS ≤ t := by
  have hmem := ((List.perm_insertionSort (· ≤ ·) _).mem_iff).1 h
  exact of_decide_eq_true (List.mem_filter.1 hmem).2

theorem length_weekTimes (facts : PolicyFacts) (now : Instant) (id : String) :
    (weekTimes facts now id).length = countSince (facts.sendTimes id) (now - WEEK_MS) := by
  rw [weekTimes, (List.perm_insertionSort (· ≤ ·) _).length_eq, countSince,
    List.countP_eq_length_filter]

theorem le_of_capDefer {until' : Instant} (h : capDefer facts policy now id = some until') :
    now ≤ until' := by
  unfold capDefer at h
  split at h
  · cases h
  · cases h
  · dsimp only at h
    split at h
    · obtain ⟨t, ht, rfl⟩ := Option.map_eq_some_iff.1 h
      have hweek := mem_weekTimes (List.mem_of_getElem? ht)
      linarith
    · cases h

/-- A message that its cap does not put off has fewer than it in the week. -/
theorem cap_of_capDefer {cap : Nat} (h : capDefer facts policy now id = none)
    (hcap : weeklyCapOf facts policy = some cap) (hne : cap ≠ 0) :
    countSince (facts.sendTimes id) (now - WEEK_MS) < cap := by
  rw [← length_weekTimes]
  by_contra hge
  obtain ⟨n, rfl⟩ := Nat.exists_eq_succ_of_ne_zero hne
  have hlt : (weekTimes facts now id).length - (n + 1) < (weekTimes facts now id).length := by
    omega
  rw [capDefer, hcap] at h
  dsimp only at h
  rw [if_pos (by omega), List.getElem?_eq_getElem hlt, Option.map_some] at h
  cases h

theorem le_of_latestInbound {inbound : Instant}
    (h : latestInbound facts policy now id = some inbound) :
    now ≤ inbound + cooldownHours facts policy * 3600000 := by
  simp only [latestInbound] at h
  split at h
  · have hmem := List.max?_mem h
    have hsince := of_decide_eq_true (List.mem_filter.1 hmem).2
    linarith
  · cases h

/-- **A message that passes has room under its cap**, if no floor stops it: it is not put off. -/
theorem cap_of_passes {contact : PolicyContact} (hcontact : facts.contact id = some contact)
    (hfloor : floorBlock facts policy contact = none)
    (h : ∀ until' reason, checkSendPolicy facts policy now id ≠ .defer until' reason) {cap : Nat}
    (hcap : weeklyCapOf facts policy = some cap) (hne : cap ≠ 0) :
    countSince (facts.sendTimes id) (now - WEEK_MS) < cap := by
  suffices hdefer : capDefer facts policy now id = none from cap_of_capDefer hdefer hcap hne
  cases hdefer : capDefer facts policy now id with
  | none => rfl
  | some until' =>
    have hdecision : checkSendPolicy facts policy now id = .defer until' "frequency_cap" := by
      simp only [checkSendPolicy, hcontact, hfloor, timing, facts.contact_id id contact hcontact,
        hdefer]
    exact absurd hdecision (h until' _)

end

end Munin
