import Munin.Foundations.Machine
import Munin.Outreach.SendPolicy

/-!
# The weekly cap

Proposals and the recipients of broadcasts are two tables; the send policy counts the marketing
messages of both. A proposal is gated and delivered in one transaction, a recipient is claimed with
its gate and stamped when its batch is recorded.

* **`GatedMessage`**, **`delivers`** — which proposals go out on which decision: one of a campaign
  also on `skip`, if the checks of its delivery pass.
* **`weeklyMachine`** — deliveries, claims, records and changes of the send rules, in any order.
* **`weekly_cap`** — no week of a contact has more marketing messages than a cap under which all of
  them were gated, and none goes out whose own cap is used up.
-/

namespace Munin

open Foundations

/-! ### Messages -/

/-- What the gate reads of a campaign's `cadenceRules`. -/
structure CadenceRules where
  quietHoursTimezone : Option String := none
  maxPerWeekPerContact : Option Nat := none

/-- A proposal that is gated: the first message or a follow-up of a campaign, on its channel, or a
message of a journey. -/
inductive GatedMessage where
  | initial (channel : ChannelType) (rules : CadenceRules)
  | followup (channel : ChannelType) (rules : CadenceRules)
  | journey (policy : SendPolicy)

/-- The policy that `sendDecision` makes of a campaign. -/
def CadenceRules.policy (rules : CadenceRules) (channel : ChannelType) : SendPolicy where
  channel := some (match channel with
    | .sms => .sms
    | .voice => .voice
    | .email | .chat => .email)
  class' := .marketing
  timezone := rules.quietHoursTimezone
  frequencyCapPerWeek := rules.maxPerWeekPerContact

def GatedMessage.policy : GatedMessage → SendPolicy
  | .initial channel rules => rules.policy channel
  | .followup channel rules => rules.policy channel
  | .journey policy => policy

/-- `assertEligible`: whether it passes. -/
def assertEligible (facts : PolicyFacts) (contact : PolicyContact) (class' : MessageClass)
    (channel : ChannelType) : Bool :=
  !(contact.doNotContact || (class' = .marketing &&
    (contact.unsubscribedAt.isSome || !truthy contact.consentLawfulBasis))) &&
  !(channel = .email && truthy contact.email && contact.email.any facts.undeliverable)

/-- Whether the contact has an address on the channel. -/
def hasAddress (contact : PolicyContact) : ChannelType → Bool
  | .sms | .voice => truthy contact.phone
  | .email | .chat => truthy contact.email

/-- What the delivery of a message checks of its channel and contact. A follow-up goes into the
conversation of the first message, and its contact's addresses are not looked at. -/
def GatedMessage.deliverable (m : GatedMessage) (facts : PolicyFacts) (contact : PolicyContact) :
    Bool :=
  match m with
  | .initial channel _ =>
    channel ≠ .chat && assertEligible facts contact .marketing channel && hasAddress contact channel
  | .followup channel _ => channel ≠ .chat && assertEligible facts contact .marketing channel
  | .journey policy =>
    assertEligible facts contact policy.class' (policy.channel.getD .email)

/-- Whether `sendScheduledProposal` goes on to deliver a message: a decision to put it off holds it,
and of a journey also one to skip it. -/
def GatedMessage.delivers (m : GatedMessage) (facts : PolicyFacts) (now : Instant) (id : String) :
    Bool :=
  (match checkSendPolicy facts m.policy now id, m with
    | .defer .., _ => false
    | .skip _, .journey _ => false
    | .skip _, _ => true
    | .send, _ => true) &&
  (facts.contact id).any fun contact => m.deliverable facts contact

/-! ### The two tables -/

/-- Where a message that was sent is a row. -/
inductive SentTable where
  /-- `outreach_proposals`, with the kind and `journey_delivery -> policy ->> class`. -/
  | proposals (kind : String) (policyClass : Option MessageClass)
  | broadcastRecipients

/-- A row whose status is `sent`, with the caps that were in force at its gate. -/
structure SentRow where
  table : SentTable
  contactId : String
  sentAt : Instant
  orgCap : Option Nat
  policyCap : Option Nat

/-- The condition of `marketingSendTimes` on a row. -/
def SentRow.marketing (r : SentRow) : Bool :=
  match r.table with
  | .proposals kind policyClass =>
    kind = "initial" || kind = "followup" ||
      (kind = "journey" && policyClass.getD .marketing = .marketing)
  | .broadcastRecipients => true

def GatedMessage.table : GatedMessage → SentTable
  | .initial .. => .proposals "initial" none
  | .followup .. => .proposals "followup" none
  | .journey policy => .proposals "journey" (some policy.class')

/-- A recipient that is claimed and not recorded, with the rows of its contact at the claim. -/
structure RecipientClaim where
  recipient : Nat
  contactId : String
  gatedAt : Instant
  orgCap : Option Nat
  before : List SentRow

/-- The rows that were sent, newest first; the send rules; and the claims. -/
structure WeeklyState where
  rules : SendRules := {}
  sent : List SentRow := []
  claims : List RecipientClaim := []
  clock : Instant := 0

/-- The policy of a broadcast. -/
def broadcastPolicy : SendPolicy where
  channel := some .email
  class' := .marketing

inductive WeeklyStep where
  /-- A proposal gated at one moment, and stamped at another. -/
  | deliver (m : GatedMessage) (contactId : String) (facts : PolicyFacts) (gatedAt sentAt : Instant)
  | claimBatch (recipient : Nat) (contactId : String) (facts : PolicyFacts) (gatedAt : Instant)
  /-- The end of a claim: a stamp, or a failure. -/
  | recordBatch (recipient : Nat) (sentAt : Option Instant)
  /-- A reply, which is not gated and not counted. -/
  | reply (contactId : String) (sentAt : Instant)
  | configure (rules : SendRules)

namespace WeeklyState

variable (s : WeeklyState)

/-- The marketing messages of a contact, newest first. -/
def marketingOf (contactId : String) : List SentRow :=
  s.sent.filter fun r => r.marketing && r.contactId = contactId

/-- `marketingSendTimes`. -/
def marketingSendTimes (contactId : String) : List Instant :=
  (s.marketingOf contactId).map (·.sentAt)

/-- What a gate finds: the rules and the send times are those of the state. -/
def factsAt (facts : PolicyFacts) : PolicyFacts :=
  { facts with rules := s.rules, sendTimes := s.marketingSendTimes }

/-- The effect of a step. -/
def step (s : WeeklyState) : WeeklyStep → Option WeeklyState
  | .deliver m contactId facts gatedAt sentAt =>
    if s.clock ≤ gatedAt ∧ gatedAt ≤ sentAt ∧
        m.delivers (s.factsAt facts) gatedAt contactId then
      some { s with
        sent := ⟨m.table, contactId, sentAt, s.rules.weeklyCap, m.policy.frequencyCapPerWeek⟩ ::
          s.sent
        clock := sentAt }
    else none
  | .claimBatch recipient contactId facts gatedAt =>
    if s.clock ≤ gatedAt ∧
        checkSendPolicy (s.factsAt facts) broadcastPolicy gatedAt contactId = .send then
      some { s with
        claims := ⟨recipient, contactId, gatedAt, s.rules.weeklyCap, s.marketingOf contactId⟩ ::
          s.claims
        clock := gatedAt }
    else none
  | .recordBatch recipient sentAt =>
    (s.claims.find? (·.recipient = recipient)).bind fun c =>
      let claims := s.claims.eraseP (·.recipient = recipient)
      match sentAt with
      | none => some { s with claims }
      | some sentAt =>
        if s.clock ≤ sentAt then
          some { s with
            sent := ⟨.broadcastRecipients, c.contactId, sentAt, c.orgCap, none⟩ :: s.sent
            claims
            clock := sentAt }
        else none
  | .reply contactId sentAt =>
    if s.clock ≤ sentAt then
      some { s with
        sent := ⟨.proposals "reply" none, contactId, sentAt, none, none⟩ :: s.sent
        clock := sentAt }
    else none
  | .configure rules => if rules.conforms then some { s with rules } else none

/-- Nothing was sent yet. -/
def Fresh (s : WeeklyState) : Prop :=
  s.rules.weeklyCap ≠ some 0 ∧ s.sent = [] ∧ s.claims = []

/-- What the gate of a step is taken for: between the claim of a recipient and its record nothing
else goes out to the contact. -/
def NothingBetween (s : WeeklyState) : WeeklyStep → Prop
  | .recordBatch recipient (some _) => ∀ c, s.claims.find? (·.recipient = recipient) = some c →
      s.marketingOf c.contactId = c.before
  | .deliver .. | .claimBatch .. | .recordBatch _ none | .reply .. | .configure _ => True

/-- What a delivery must meet: no cap of the message's own is zero, and the contact of a follow-up
has an address on its channel. -/
def Capped : WeeklyStep → Prop
  | .deliver m contactId facts _ _ =>
    (m.policy.marketing = true → m.policy.frequencyCapPerWeek ≠ some 0) ∧
      ∀ channel rules contact, m = .followup channel rules →
        facts.contact contactId = some contact → hasAddress contact channel = true
  | .claimBatch .. | .recordBatch .. | .reply .. | .configure _ => True

end WeeklyState

/-- Everything that is sent to the contacts of an organisation. -/
def weeklyMachine : Machine WeeklyState WeeklyStep where
  step := WeeklyState.step

/-! ### What passes a gate -/

section Gate

variable {facts : PolicyFacts} {now : Instant} {id : String}

/-- The checks of a campaign's delivery, with an address on its channel, are those of the floor. -/
theorem floorBlock_campaign {contact : PolicyContact} {channel : ChannelType} {rules : CadenceRules}
    (heligible : assertEligible facts contact .marketing channel = true)
    (haddress : hasAddress contact channel = true) (hchannel : channel ≠ .chat) :
    floorBlock facts (rules.policy channel) contact = none := by
  simp only [assertEligible, decide_true, Bool.true_and, Bool.and_eq_true, Bool.not_eq_true',
    Bool.or_eq_false_iff, Bool.not_eq_false', Bool.and_eq_false_imp, decide_eq_true_eq] at heligible
  obtain ⟨⟨hcontact, hsubscribed, hconsent⟩, hreached⟩ := heligible
  cases channel with
  | email =>
    have hmail : truthy contact.email = true := haddress
    have hunreached : contact.email.any facts.undeliverable = false := hreached ⟨rfl, hmail⟩
    simp [floorBlock, CadenceRules.policy, SendPolicy.chat, SendPolicy.sms, SendPolicy.marketing,
      hcontact, hsubscribed, hconsent, hmail, hunreached]
  | sms =>
    have hphone : truthy contact.phone = true := haddress
    simp [floorBlock, CadenceRules.policy, SendPolicy.chat, SendPolicy.sms, SendPolicy.marketing,
      hcontact, hsubscribed, hconsent, hphone]
  | voice =>
    have hphone : truthy contact.phone = true := haddress
    simp [floorBlock, CadenceRules.policy, SendPolicy.chat, SendPolicy.sms, SendPolicy.marketing,
      hcontact, hsubscribed, hconsent, hphone]
  | chat => exact absurd rfl hchannel

/-- A message that the policy sends was stopped by no floor. -/
theorem floorBlock_of_send {policy : SendPolicy} {contact : PolicyContact}
    (hcontact : facts.contact id = some contact)
    (h : checkSendPolicy facts policy now id = .send) : floorBlock facts policy contact = none := by
  cases hfloor : floorBlock facts policy contact with
  | none => rfl
  | some reason =>
    simp only [checkSendPolicy, hcontact, hfloor] at h
    cases h

/-- The cap of a message is no more than either of the two, and not zero if neither is. -/
theorem weeklyCapOf_le {policy : SendPolicy} (hmarketing : policy.marketing = true)
    (horg : facts.rules.weeklyCap ≠ some 0) (hown : policy.frequencyCapPerWeek ≠ some 0) {k : Nat}
    (hk : facts.rules.weeklyCap = some k ∨ policy.frequencyCapPerWeek = some k) :
    ∃ cap, weeklyCapOf facts policy = some cap ∧ cap ≤ k ∧ cap ≠ 0 := by
  unfold weeklyCapOf
  rw [if_pos hmarketing, if_pos hmarketing]
  cases hrules : facts.rules.weeklyCap with
  | none =>
    rw [hrules] at hk
    rcases hk with hk | hk
    · cases hk
    · exact ⟨k, by rw [hk]; rfl, Nat.le_refl k, fun h0 => hown (by rw [hk, h0])⟩
  | some a =>
    have ha : a ≠ 0 := fun h0 => horg (by rw [hrules, h0])
    cases hpolicy : policy.frequencyCapPerWeek with
    | none =>
      rw [hrules, hpolicy] at hk
      rcases hk with hk | hk
      · exact ⟨a, rfl, le_of_eq (Option.some.inj hk), ha⟩
      · cases hk
    | some b =>
      have hb : b ≠ 0 := fun h0 => hown (by rw [hpolicy, h0])
      refine ⟨min a b, rfl, ?_, by omega⟩
      rw [hrules, hpolicy] at hk
      rcases hk with hk | hk <;> obtain rfl := Option.some.inj hk
      · exact min_le_left _ _
      · exact min_le_right _ _

/-- **What a delivery has room for.** -/
theorem cap_of_delivers {m : GatedMessage} (h : m.delivers facts now id = true)
    (hmarketing : m.policy.marketing = true) (horg : facts.rules.weeklyCap ≠ some 0)
    (hown : m.policy.frequencyCapPerWeek ≠ some 0)
    (haddress : ∀ channel rules contact, m = .followup channel rules →
      facts.contact id = some contact → hasAddress contact channel = true) {k : Nat}
    (hk : facts.rules.weeklyCap = some k ∨ m.policy.frequencyCapPerWeek = some k) :
    countSince (facts.sendTimes id) (now - WEEK_MS) < k := by
  obtain ⟨hdecision, hany⟩ := Bool.and_eq_true_iff.1 h
  obtain ⟨contact, hcontact, hdeliverable⟩ := (Option.any_eq_true _ _).1 hany
  have hnodefer : ∀ until' reason,
      checkSendPolicy facts m.policy now id ≠ .defer until' reason := by
    intro until' reason hdefer
    simp [hdefer] at hdecision
  have hfloor : floorBlock facts m.policy contact = none := by
    cases hd : checkSendPolicy facts m.policy now id with
    | send => exact floorBlock_of_send hcontact hd
    | defer until' reason => exact absurd hd (hnodefer until' reason)
    | skip reason =>
      -- Only the checks of its delivery stand between a campaign's message and its contact.
      cases m with
      | initial channel rules =>
        simp only [GatedMessage.deliverable, Bool.and_eq_true, decide_eq_true_eq] at hdeliverable
        exact floorBlock_campaign hdeliverable.1.2 hdeliverable.2 hdeliverable.1.1
      | followup channel rules =>
        simp only [GatedMessage.deliverable, Bool.and_eq_true, decide_eq_true_eq] at hdeliverable
        exact floorBlock_campaign hdeliverable.2 (haddress channel rules contact rfl hcontact)
          hdeliverable.1
      | journey policy => simp [hd] at hdecision
  obtain ⟨cap, hcap, hle, hne⟩ := weeklyCapOf_le hmarketing horg hown hk
  exact (cap_of_passes hcontact hfloor hnodefer hcap hne).trans_le hle

end Gate

/-! ### The invariant -/

/-- A row was gated under this cap. -/
def SentRow.GatedUnder (r : SentRow) (k : Nat) : Prop :=
  r.orgCap = some k ∨ r.policyCap = some k

namespace WeeklyState

/-- Of each contact every marketing message had room under its caps, and every claim still has. -/
structure WeeklyOk (s : WeeklyState) : Prop where
  rules : s.rules.weeklyCap ≠ some 0
  sorted : s.sent.Pairwise fun a b => b.sentAt ≤ a.sentAt
  clock : ∀ r ∈ s.sent, r.sentAt ≤ s.clock
  spaced : ∀ contactId, Spaced WEEK_MS (·.sentAt) SentRow.GatedUnder (s.marketingOf contactId)
  claims : ∀ c ∈ s.claims, c.gatedAt ≤ s.clock ∧ ∀ k, c.orgCap = some k →
    countSince (c.before.map (·.sentAt)) (c.gatedAt - WEEK_MS) < k

variable {s t : WeeklyState}

/-- **A row that is added** is stamped no earlier than the clock, and if it is a marketing message,
had room for it under its caps. -/
theorem WeeklyOk.cons (hs : s.WeeklyOk) {r : SentRow} {claims : List RecipientClaim}
    (hclock : s.clock ≤ r.sentAt) (hroom : r.marketing = true → ∀ k, r.GatedUnder k →
      countSince (s.marketingSendTimes r.contactId) (r.sentAt - WEEK_MS) < k)
    (hclaims : ∀ c ∈ claims, c ∈ s.claims) :
    WeeklyOk { s with sent := r :: s.sent, claims, clock := r.sentAt } := by
  have hle : ∀ q ∈ s.sent, q.sentAt ≤ r.sentAt := fun q hq => (hs.clock q hq).trans hclock
  refine ⟨hs.rules, List.pairwise_cons.2 ⟨hle, hs.sorted⟩, ?_, fun contactId => ?_, ?_⟩
  · intro q hq
    rcases List.mem_cons.1 hq with rfl | hq
    · exact le_refl _
    · exact hle q hq
  · unfold marketingOf
    rw [List.filter_cons]
    split
    · rename_i hcounts
      rw [Bool.and_eq_true, decide_eq_true_eq] at hcounts
      refine ⟨fun k hk => ?_, hs.spaced contactId⟩
      exact hcounts.2 ▸ hroom hcounts.1 k hk
    · exact hs.spaced contactId
  · intro c hc
    obtain ⟨hgated, hroom⟩ := hs.claims c (hclaims c hc)
    exact ⟨hgated.trans hclock, hroom⟩

/-- Whether a message is counted is whether its policy is for marketing. -/
theorem marketing_of_table (m : GatedMessage) (contactId : String) (sentAt : Instant)
    (orgCap policyCap : Option Nat) :
    SentRow.marketing ⟨m.table, contactId, sentAt, orgCap, policyCap⟩ = m.policy.marketing := by
  cases m with
  | initial channel rules => rfl
  | followup channel rules => rfl
  | journey policy =>
    cases hclass : policy.class' <;>
      simp [SentRow.marketing, GatedMessage.table, GatedMessage.policy, SendPolicy.marketing,
        hclass]

/-- **One step** keeps the invariant. -/
theorem WeeklyOk.step (hs : s.WeeklyOk) {a : WeeklyStep} (hbetween : s.NothingBetween a)
    (hcapped : Capped a) (h : weeklyMachine.step s a = some t) : t.WeeklyOk := by
  change WeeklyState.step s a = some t at h
  cases a with
  | deliver m contactId facts gatedAt sentAt =>
    simp only [WeeklyState.step] at h
    split at h
    · rename_i hdeliver
      obtain ⟨hclock, hle, hdelivers⟩ := hdeliver
      obtain rfl := Option.some.inj h
      obtain ⟨hown, haddress⟩ := hcapped
      refine hs.cons (hclock.trans hle) (fun hmarketing k hk => ?_) fun c hc => hc
      rw [marketing_of_table] at hmarketing
      have hroom := cap_of_delivers hdelivers hmarketing hs.rules (hown hmarketing) haddress hk
      -- The week counted by the gate began earlier than the one before the send.
      exact (countSince_anti (by linarith)).trans_lt hroom
    · cases h
  | claimBatch recipient contactId facts gatedAt =>
    simp only [WeeklyState.step] at h
    split at h
    · rename_i hclaim
      obtain ⟨hclock, hsend⟩ := hclaim
      obtain rfl := Option.some.inj h
      refine ⟨hs.rules, hs.sorted, fun r hr => (hs.clock r hr).trans hclock, hs.spaced, ?_⟩
      intro c hc
      rcases List.mem_cons.1 hc with rfl | hc
      · refine ⟨le_refl _, fun k hk => ?_⟩
        obtain ⟨cap, hcap, hle, hne⟩ : ∃ cap, weeklyCapOf (s.factsAt facts) broadcastPolicy =
            some cap ∧ cap ≤ k ∧ cap ≠ 0 :=
          weeklyCapOf_le rfl hs.rules (by simp [broadcastPolicy]) (.inl hk)
        obtain ⟨contact, hcontact⟩ :
            ∃ contact, (s.factsAt facts).contact contactId = some contact := by
          cases hcontact : (s.factsAt facts).contact contactId with
          | none =>
            rw [checkSendPolicy, hcontact] at hsend
            cases hsend
          | some contact => exact ⟨contact, rfl⟩
        have hroom := cap_of_passes hcontact (floorBlock_of_send hcontact hsend)
          (fun until' reason hdefer => by rw [hsend] at hdefer; cases hdefer) hcap hne
        exact hroom.trans_le hle
      · obtain ⟨hgated, hroom⟩ := hs.claims c hc
        exact ⟨hgated.trans hclock, hroom⟩
    · cases h
  | recordBatch recipient sentAt =>
    simp only [WeeklyState.step] at h
    obtain ⟨c, hc, h⟩ := Option.bind_eq_some_iff.1 h
    have herase : ∀ d ∈ s.claims.eraseP (·.recipient = recipient), d ∈ s.claims := fun d hd =>
      List.mem_of_mem_eraseP hd
    cases sentAt with
    | none =>
      obtain rfl := Option.some.inj h
      exact ⟨hs.rules, hs.sorted, hs.clock, hs.spaced, fun d hd => hs.claims d (herase d hd)⟩
    | some sentAt =>
      dsimp only at h
      split at h
      · rename_i hclock
        obtain rfl := Option.some.inj h
        obtain ⟨hgated, hroom⟩ := hs.claims c (List.mem_of_find?_eq_some hc)
        refine hs.cons hclock (fun _ k hk => ?_) herase
        have hk : c.orgCap = some k := hk.resolve_right fun hnone => by cases hnone
        -- Nothing was sent to the contact in between: the claim's count still stands.
        have hsame : s.marketingSendTimes c.contactId = c.before.map (·.sentAt) :=
          congrArg (List.map fun r : SentRow => r.sentAt) (hbetween c hc)
        rw [hsame]
        exact (countSince_anti (by dsimp only; linarith)).trans_lt (hroom k hk)
      · cases h
  | reply contactId sentAt =>
    simp only [WeeklyState.step] at h
    split at h
    · rename_i hclock
      obtain rfl := Option.some.inj h
      exact hs.cons hclock (fun hmarketing => by cases hmarketing) fun c hc => hc
    · cases h
  | configure rules =>
    simp only [WeeklyState.step] at h
    split at h
    · rename_i hconforms
      obtain rfl := Option.some.inj h
      refine ⟨fun hzero => ?_, hs.sorted, hs.clock, hs.spaced, hs.claims⟩
      have hcap : rules.weeklyCap = some 0 := hzero
      simp [SendRules.conforms, hcap] at hconforms
    · cases h

end WeeklyState

/-! ### The cap -/

open WeeklyState

/-- The steps of a run in which each message is gated and then sent with nothing in between, and the
caps apply. -/
def WeeklyGated (s : WeeklyState) (a : WeeklyStep) : Prop :=
  s.NothingBetween a ∧ Capped a

/-- What the caps promise in a state. -/
structure WeeklyState.CapsKept (s : WeeklyState) : Prop where
  /-- A week of a contact all of whose marketing messages were gated while the cap of the
  organisation was `k` has at most `k` of them. -/
  week : ∀ contactId k t,
    (∀ r ∈ s.marketingOf contactId, t ≤ r.sentAt → r.sentAt ≤ t + WEEK_MS → r.orgCap = some k) →
      inWindow (s.marketingSendTimes contactId) t (t + WEEK_MS) ≤ k
  /-- In the week before a message with a cap of its own lie fewer of them than it. -/
  own : ∀ contactId newer r older j, s.marketingOf contactId = newer ++ r :: older →
    r.policyCap = some j → countSince (older.map (·.sentAt)) (r.sentAt - WEEK_MS) < j

theorem spaced_append {log newer older : List SentRow} {r : SentRow}
    (h : Spaced WEEK_MS (·.sentAt) SentRow.GatedUnder log) (hlog : log = newer ++ r :: older)
    {k : Nat} (hk : r.GatedUnder k) :
    countSince (older.map (·.sentAt)) (r.sentAt - WEEK_MS) < k := by
  induction newer generalizing log with
  | nil =>
    subst hlog
    exact h.1 k hk
  | cons q newer ih =>
    subst hlog
    exact ih h.2 rfl

/-- **The weekly cap.** -/
theorem weekly_cap {s : WeeklyState} (h : weeklyMachine.Reaches Fresh WeeklyGated s) :
    s.CapsKept := by
  have hok : s.WeeklyOk := by
    refine h.invariant (I := WeeklyOk) (fun s hs => ?_)
      fun s t a _ hs hgated hstep => hs.step hgated.1 hgated.2 hstep
    obtain ⟨hrules, hsent, hclaims⟩ := hs
    refine ⟨hrules, ?_, ?_, fun contactId => ?_, ?_⟩
    · rw [hsent]
      exact List.Pairwise.nil
    · rw [hsent]
      exact fun r hr => by cases hr
    · rw [marketingOf, hsent]
      trivial
    · rw [hclaims]
      exact fun c hc => by cases hc
  refine ⟨fun contactId k t hk => ?_, fun contactId newer r older j hlog hj => ?_⟩
  · refine (hok.spaced contactId).inWindow_le (hok.sorted.filter _) fun r hr hge hle => ?_
    exact .inl (hk r hr hge hle)
  · exact spaced_append (hok.spaced contactId) hlog (.inr hj)

/-- What is known of a contact whose address is this one. -/
def contactWith (email : Option String) : PolicyFacts where
  contact := fun id => some { id, email, consentLawfulBasis := some "consent" }
  contact_id := by
    intro id c h
    cases h
    rfl

/-- An organisation with this weekly cap. -/
def weeklyStart (cap : Nat) : WeeklyState where
  rules := { weeklyCap := some cap }

/-- The first message of a campaign to a contact, and a broadcast to it. -/
def firstTouches : List WeeklyStep :=
  [.deliver (.initial .email {}) "1" (contactWith (some "a@x.test")) 0 1,
    .claimBatch 7 "1" (contactWith (some "a@x.test")) 2, .recordBatch 7 (some 3)]

theorem weekly_cap_sample : ∃ s, weeklyMachine.run (weeklyStart 2) firstTouches = some s ∧
    s.marketingSendTimes "1" = [3, 1] ∧ s.CapsKept := by
  refine ⟨_, rfl, rfl, ?_⟩
  have hstart : weeklyMachine.Reaches Fresh WeeklyGated (weeklyStart 2) :=
    .start ⟨by decide, rfl, rfl⟩
  have hdeliver := hstart.step (a := firstTouches[0])
    ⟨trivial, by decide, fun _ _ _ h => by cases h⟩
    rfl
  have hclaim := hdeliver.step (a := firstTouches[1]) ⟨trivial, trivial⟩ rfl
  have hrecord := hclaim.step (a := firstTouches[2])
    ⟨fun c hc => by cases hc; rfl, trivial⟩ rfl
  exact weekly_cap hrecord

/-- **A follow-up to a contact that has lost its address.** The policy answers `skip` before it
looks at the cap, and the follow-up is delivered. -/
theorem followup_over_cap :
    ¬ ∀ s, weeklyMachine.Reaches Fresh (fun s a => s.NothingBetween a) s → s.CapsKept := by
  intro h
  have hstart : weeklyMachine.Reaches Fresh (fun s a => s.NothingBetween a) (weeklyStart 1) :=
    .start ⟨by decide, rfl, rfl⟩
  have hinitial := hstart.step
    (a := .deliver (.initial .email {}) "1" (contactWith (some "a@x.test")) 0 1)
    (by exact trivial) rfl
  have hfollowup := hinitial.step
    (a := .deliver (.followup .email {}) "1" (contactWith none) 86400000 86400001)
    (by exact trivial) rfl
  have hweek := (h _ hfollowup).week "1" 1 0 fun r hr _ _ => ?_
  · exact absurd hweek (by decide)
  · rcases List.mem_cons.1 hr with rfl | hr
    · rfl
    · rw [List.mem_singleton.1 hr]
      rfl

end Munin
