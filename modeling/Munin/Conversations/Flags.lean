import Munin.Conversations.ListPages
import Munin.Foundations.Instant
import Munin.Foundations.Machine

/-!
# The flags of a conversation

A conversation is open, snoozed until a moment, closed or spam, and it may be flagged for a human's
attention. Agents ask for a handover, messages are sent and received, staff change the status, and a
sweep wakes what was snoozed; each of these writes some of the columns, several without a look at
the others.

* **`stepConversations`** — the operations, on any number of conversations.
* **`ConvConversation.Consistent`** — the law: which of the columns belong together.
* **`KeepsFlags`** — the operations that keep them together: no handover is asked for where a
  conversation is settled, no moment of waking is given to another status, and no message reopens
  what was snoozed.
* **`flags_consistent`** — runs of such operations keep the law; `step_consistent_iff` says that
  every other operation breaks it.
-/

namespace Munin

open Foundations

/-- `agentMode` of a conversation. -/
inductive ConversationAgentMode where
  | auto
  | draftOnly
  | off
  deriving DecidableEq

/-- Who wrote a message. -/
inductive MessageAuthor where
  | user
  | agent
  | endUser
  | system
  deriving DecidableEq

/-- A row of `conv_conversations`, as far as these operations read and write it. -/
structure ConvConversation where
  id : String
  channelId : String
  contactId : String
  status : ConversationStatus := .opened
  suppressedReason : Option SuppressedReason := none
  snoozeUntil : Option Instant := none
  lastMessageAt : Option Instant := none
  needsHumanAttention : Bool := false
  needsHumanAttentionAt : Option Instant := none
  handoverResolvedAt : Option Instant := none
  agentMode : ConversationAgentMode := .auto

namespace ConvConversation

variable (r : ConvConversation)

/-- The conversation is closed or spam. -/
def Settled : Prop := r.status = .closed ∨ r.status = .spam

instance : Decidable r.Settled := inferInstanceAs (Decidable (_ ∨ _))

/-- **The law**: the columns that belong together. -/
structure Consistent : Prop where
  attentionAt : r.needsHumanAttention = true ↔ r.needsHumanAttentionAt.isSome = true
  unresolved : r.needsHumanAttention = true → r.handoverResolvedAt = none
  snoozed : r.snoozeUntil.isSome = true ↔ r.status = .snoozed
  settled : r.Settled → r.needsHumanAttention = false

/-! ### The writes -/

/-- `stampHandoverResolved`. -/
def stampHandoverResolved (now : Instant) : Option Instant :=
  if r.needsHumanAttention then some now else r.handoverResolvedAt

/-- The columns of a handover that was answered. -/
def clearAttention (now : Instant) : ConvConversation :=
  { r with
    needsHumanAttention := false
    needsHumanAttentionAt := none
    handoverResolvedAt := r.stampHandoverResolved now }

/-- The columns of a handover that was asked for. -/
def raiseAttention (now : Instant) : ConvConversation :=
  { r with
    needsHumanAttention := true
    needsHumanAttentionAt := some now
    handoverResolvedAt := none }

/-- `requestHandover`; `claimed` says whether staff hold the conversation. -/
def requestHandover (claimed : Bool) (now : Instant) : ConvConversation :=
  if r.needsHumanAttention || claimed then r
  else { r.raiseAttention now with lastMessageAt := some now }

/-- `raiseAttentionWhenAgentIsOff`; the mode of the conversation's topic goes before its own. -/
def raiseAttentionWhenAgentIsOff (topicMode : Option ConversationAgentMode) (now : Instant) :
    ConvConversation :=
  if r.needsHumanAttention = false ∧ r.status = .opened ∧ topicMode.getD r.agentMode = .off then
    r.raiseAttention now
  else r

/-- `sendMessage`, once the message is accepted. -/
def sendMessage (authorType : MessageAuthor) (internal preserveAttention : Bool)
    (topicMode : Option ConversationAgentMode) (now : Instant) : ConvConversation :=
  let r := if internal then r else { r with lastMessageAt := some now }
  let r := if (authorType = .user ∨ authorType = .agent) ∧ !internal ∧ !preserveAttention then
    r.clearAttention now else r
  if authorType = .endUser ∧ !internal then r.raiseAttentionWhenAgentIsOff topicMode now else r

/-- `changeStatus`, once it is accepted. -/
def changeStatus (status : ConversationStatus) (snoozeUntil : Option Instant) (now : Instant) :
    ConvConversation :=
  let r := { r with
    status, snoozeUntil
    suppressedReason := if status = .opened then none else r.suppressedReason }
  if status = .closed ∨ status = .spam then r.clearAttention now else r

/-- `wakeDueSnoozedConversations`. -/
def wake (now : Instant) : ConvConversation :=
  if r.status = .snoozed ∧ r.snoozeUntil.any (· ≤ now) then
    { r.raiseAttention now with status := .opened, snoozeUntil := none }
  else r

/-- `reopenClosedConversation`. -/
def reopenClosedConversation : ConvConversation :=
  if r.status = .closed ∨ r.status = .snoozed then { r with status := .opened } else r

/-- The updates of `ingestOne` on the conversation that a message of a channel joins. -/
def ingest (spamSender : Bool) (topicMode : Option ConversationAgentMode)
    (receivedAt now : Instant) : ConvConversation :=
  let r := { r with lastMessageAt := some receivedAt }
  if spamSender then
    { r with
      status := .spam
      suppressedReason := some .spamSender
      needsHumanAttention := false
      needsHumanAttentionAt := none }
  else r.raiseAttentionWhenAgentIsOff topicMode now

/-- `createConversation`. -/
def create (id channelId contactId : String) (agentMode : ConversationAgentMode)
    (spamSender : Bool) (receivedAt : Instant) : ConvConversation where
  id := id
  channelId := channelId
  contactId := contactId
  status := if spamSender then .spam else .opened
  suppressedReason := if spamSender then some .spamSender else none
  lastMessageAt := some receivedAt
  agentMode := agentMode

/-- A conversation as it is inserted: not snoozed, and the columns of a handover are empty. -/
structure Fresh : Prop where
  status : r.status ≠ .snoozed
  snoozeUntil : r.snoozeUntil = none
  needsHumanAttention : r.needsHumanAttention = false
  needsHumanAttentionAt : r.needsHumanAttentionAt = none
  handoverResolvedAt : r.handoverResolvedAt = none

/-- Whether a message of the contact on the channel may join the conversation. -/
def Threadable (channelId contactId : String) : Prop :=
  r.channelId = channelId ∧ r.contactId = contactId ∧
    (r.status = .opened ∨ r.status = .snoozed)

instance (channelId contactId : String) : Decidable (r.Threadable channelId contactId) :=
  inferInstanceAs (Decidable (_ ∧ _))

end ConvConversation

/-- The order of `desc(lastMessageAt)`, in which conversations without messages come first. -/
def atLeastAsRecent : Option Instant → Option Instant → Bool
  | none, _ => true
  | some _, none => false
  | some a, some b => b ≤ a

/-- `findThreadableConversation` may return this; where several are equally recent, any of them. -/
def FindsThreadable (rows : List ConvConversation) (channelId contactId : String) :
    Option String → Prop
  | none => ∀ r ∈ rows, ¬ r.Threadable channelId contactId
  | some id => ∃ r ∈ rows, r.id = id ∧ r.Threadable channelId contactId ∧
      ∀ q ∈ rows, q.Threadable channelId contactId →
        atLeastAsRecent r.lastMessageAt q.lastMessageAt

instance (rows : List ConvConversation) (channelId contactId : String) (found : Option String) :
    Decidable (FindsThreadable rows channelId contactId found) := by
  cases found <;> dsimp only [FindsThreadable] <;> infer_instance

/-- The operations, with what they find elsewhere: whether staff hold the conversation, the mode of
its topic, whether the contact was marked as a sender of spam. -/
inductive ConversationOp where
  | requestHandover (id : String) (claimed : Bool) (now : Instant)
  | sendMessage (id : String) (authorType : MessageAuthor) (internal preserveAttention : Bool)
      (topicMode : Option ConversationAgentMode) (now : Instant)
  | changeStatus (id : String) (status : ConversationStatus) (snoozeUntil : Option Instant)
      (now : Instant)
  | wakeDueSnoozedConversations (now : Instant)
  | raiseAttentionWhenAgentIsOff (id : String) (topicMode : Option ConversationAgentMode)
      (now : Instant)
  | reopenClosedConversation (id : String)
  /-- `ingestOne`: the message joins the conversation found, or a new one. -/
  | ingest (channelId contactId : String) (found : Option String) (newId : String)
      (defaultAgentMode : ConversationAgentMode) (spamSender : Bool)
      (topicMode : Option ConversationAgentMode) (receivedAt now : Instant)

/-- The update of one conversation. -/
def updateConversation (id : String) (f : ConvConversation → ConvConversation)
    (rows : List ConvConversation) : List ConvConversation :=
  rows.map fun r => if r.id = id then f r else r

/-- One operation; `none` where it is refused. A conversation that is not there is refused too,
where the operation looks. -/
def stepConversations (rows : List ConvConversation) :
    ConversationOp → Option (List ConvConversation)
  | .requestHandover id claimed now =>
    if rows.any (·.id = id) then
      some (updateConversation id (·.requestHandover claimed now) rows)
    else none
  | .sendMessage id authorType internal preserveAttention topicMode now =>
    if rows.any (·.id = id) then
      some (updateConversation id
        (·.sendMessage authorType internal preserveAttention topicMode now) rows)
    else none
  | .changeStatus id status snoozeUntil now =>
    if status = .snoozed ∧ snoozeUntil = none then none
    else if rows.any (·.id = id) then
      some (updateConversation id (·.changeStatus status snoozeUntil now) rows)
    else none
  | .wakeDueSnoozedConversations now => some (rows.map (·.wake now))
  | .raiseAttentionWhenAgentIsOff id topicMode now =>
    some (updateConversation id (·.raiseAttentionWhenAgentIsOff topicMode now) rows)
  | .reopenClosedConversation id =>
    some (updateConversation id (·.reopenClosedConversation) rows)
  | .ingest channelId contactId found newId defaultAgentMode spamSender topicMode receivedAt now =>
    if FindsThreadable rows channelId contactId found then
      match found with
      | some id =>
        some (updateConversation id (fun r =>
          -- only what was snoozed is reopened here
          let r := if r.status = .snoozed then r.reopenClosedConversation else r
          r.ingest spamSender topicMode receivedAt now) rows)
      | none =>
        let created :=
          ConvConversation.create newId channelId contactId defaultAgentMode spamSender receivedAt
        some (rows ++ [created.ingest spamSender topicMode receivedAt now])
    else none

/-- The conversations of an organisation. -/
def conversations : Machine (List ConvConversation) ConversationOp := ⟨stepConversations⟩

/-- The operations that keep the columns together. -/
def KeepsFlags (rows : List ConvConversation) : ConversationOp → Prop
  | .requestHandover id claimed _ => ∀ r ∈ rows, r.id = id → r.Settled → claimed = true
  | .changeStatus _ status snoozeUntil _ => snoozeUntil ≠ none → status = .snoozed
  | .reopenClosedConversation id => ∀ r ∈ rows, r.id = id → r.status ≠ .snoozed
  | .ingest _ _ found _ _ _ _ _ _ => ∀ r ∈ rows, some r.id = found → r.status ≠ .snoozed
  | _ => True

instance (rows : List ConvConversation) (op : ConversationOp) : Decidable (KeepsFlags rows op) := by
  cases op <;> dsimp only [KeepsFlags] <;> infer_instance

/-! ### What the writes keep -/

namespace ConvConversation

variable {r : ConvConversation}

theorem Fresh.consistent (h : r.Fresh) : r.Consistent where
  attentionAt := by rw [h.needsHumanAttention, h.needsHumanAttentionAt]; rfl
  unresolved := fun _ => h.handoverResolvedAt
  snoozed := by simp [h.snoozeUntil, h.status]
  settled := fun _ => h.needsHumanAttention

section Consistent

variable (h : r.Consistent)

include h

/-- A handover that is answered. -/
theorem Consistent.clearAttention (now : Instant) :
    (r.clearAttention now).Consistent where
  attentionAt := by simp [ConvConversation.clearAttention]
  unresolved := by simp [ConvConversation.clearAttention]
  snoozed := h.snoozed
  settled := fun _ => rfl

/-- A handover that is asked for goes with every status that is not settled, and with no other. -/
theorem Consistent.raiseAttention_iff (now : Instant) :
    (r.raiseAttention now).Consistent ↔ ¬ r.Settled := by
  constructor
  · intro hr hsettled
    exact absurd (hr.settled hsettled) (by simp [ConvConversation.raiseAttention])
  · intro hopen
    exact ⟨by simp [ConvConversation.raiseAttention], fun _ => rfl, h.snoozed,
      fun hsettled => absurd hsettled hopen⟩

/-- The last message is no part of the law. -/
theorem Consistent.lastMessageAt (at' : Option Instant) :
    ({ r with lastMessageAt := at' } : ConvConversation).Consistent :=
  ⟨h.attentionAt, h.unresolved, h.snoozed, h.settled⟩

/-- A handover of a conversation that is settled needs somebody who holds it. -/
theorem Consistent.requestHandover_iff (claimed : Bool) (now : Instant) :
    (r.requestHandover claimed now).Consistent ↔ (r.Settled → claimed = true) := by
  unfold requestHandover
  split
  · rename_i hskip
    refine ⟨fun _ hsettled => ?_, fun _ => h⟩
    rw [h.settled hsettled] at hskip
    simpa using hskip
  · rename_i hraise
    obtain ⟨-, hclaimed⟩ : r.needsHumanAttention = false ∧ claimed = false := by simpa using hraise
    have hlast : ({ r.raiseAttention now with lastMessageAt := some now } :
        ConvConversation).Consistent ↔ (r.raiseAttention now).Consistent :=
      ⟨fun hc => hc.lastMessageAt (r.raiseAttention now).lastMessageAt,
        fun hc => hc.lastMessageAt (some now)⟩
    rw [hlast, h.raiseAttention_iff, hclaimed]
    simp

theorem Consistent.raiseAttentionWhenAgentIsOff
    (topicMode : Option ConversationAgentMode) (now : Instant) :
    (r.raiseAttentionWhenAgentIsOff topicMode now).Consistent := by
  unfold ConvConversation.raiseAttentionWhenAgentIsOff
  split
  · rename_i hraise
    refine (h.raiseAttention_iff now).2 fun hsettled => ?_
    rcases hsettled with hclosed | hspam
    · exact absurd (hraise.2.1.symm.trans hclosed) (by decide)
    · exact absurd (hraise.2.1.symm.trans hspam) (by decide)
  · exact h

theorem Consistent.sendMessage (authorType : MessageAuthor)
    (internal preserveAttention : Bool) (topicMode : Option ConversationAgentMode) (now : Instant) :
    (r.sendMessage authorType internal preserveAttention topicMode now).Consistent := by
  unfold ConvConversation.sendMessage
  have hsent : (if internal then r else { r with lastMessageAt := some now }).Consistent := by
    split
    · exact h
    · exact h.lastMessageAt (some now)
  have hcleared : ∀ q : ConvConversation, q.Consistent →
      (if (authorType = .user ∨ authorType = .agent) ∧ !internal ∧ !preserveAttention then
        q.clearAttention now else q).Consistent := by
    intro q hq
    split
    · exact hq.clearAttention now
    · exact hq
  dsimp only
  split
  · exact (hcleared _ hsent).raiseAttentionWhenAgentIsOff topicMode now
  · exact hcleared _ hsent

/-- A moment of waking goes with the status `snoozed` alone. -/
theorem Consistent.changeStatus_iff {status : ConversationStatus}
    {snoozeUntil : Option Instant} (hgiven : status = .snoozed → snoozeUntil ≠ none)
    (now : Instant) :
    (r.changeStatus status snoozeUntil now).Consistent ↔
      (snoozeUntil ≠ none → status = .snoozed) := by
  have hcolumns : (r.changeStatus status snoozeUntil now).status = status ∧
      (r.changeStatus status snoozeUntil now).snoozeUntil = snoozeUntil := by
    unfold changeStatus
    dsimp only
    split
    · exact ⟨rfl, rfl⟩
    · exact ⟨rfl, rfl⟩
  constructor
  · intro hc hsome
    have hsnoozed := hc.snoozed
    rw [hcolumns.1, hcolumns.2, Option.isSome_iff_ne_none] at hsnoozed
    exact hsnoozed.1 hsome
  · intro hfits
    have hsnoozed : snoozeUntil.isSome = true ↔ status = .snoozed :=
      Option.isSome_iff_ne_none.trans ⟨hfits, hgiven⟩
    unfold changeStatus
    dsimp only
    split
    · exact ⟨by simp [ConvConversation.clearAttention], by simp [ConvConversation.clearAttention],
        hsnoozed, fun _ => rfl⟩
    · rename_i hopen
      exact ⟨h.attentionAt, h.unresolved, hsnoozed, fun hsettled => absurd hsettled hopen⟩

theorem Consistent.wake (now : Instant) : (r.wake now).Consistent := by
  unfold ConvConversation.wake
  split
  · exact ⟨by simp [ConvConversation.raiseAttention], fun _ => rfl, by simp,
      fun hsettled => absurd hsettled (by simp [Settled])⟩
  · exact h

/-- What was closed is reopened; what was snoozed would keep its moment of waking. -/
theorem Consistent.reopenClosedConversation_iff :
    r.reopenClosedConversation.Consistent ↔ r.status ≠ .snoozed := by
  unfold ConvConversation.reopenClosedConversation
  by_cases hsnoozed : r.status = .snoozed
  · rw [if_pos (.inr hsnoozed)]
    refine ⟨fun hc => ?_, fun hne => absurd hsnoozed hne⟩
    exact absurd (hc.snoozed.1 (h.snoozed.2 hsnoozed)) (by simp)
  · refine ⟨fun _ => hsnoozed, fun _ => ?_⟩
    split
    · refine ⟨h.attentionAt, h.unresolved, ?_, fun hsettled => absurd hsettled (by simp [Settled])⟩
      have hnone : ¬ r.snoozeUntil.isSome = true := fun hsome => hsnoozed (h.snoozed.1 hsome)
      simp [hnone]
    · exact h

omit h in
/-- A message of a channel that joins a conversation takes away its status, but not its moment of
waking. -/
theorem ingest_columns (r : ConvConversation) (spamSender : Bool)
    (topicMode : Option ConversationAgentMode) (receivedAt now : Instant) :
    (r.ingest spamSender topicMode receivedAt now).snoozeUntil = r.snoozeUntil ∧
      ((r.ingest spamSender topicMode receivedAt now).status = .spam ∨
        (r.ingest spamSender topicMode receivedAt now).status = r.status) := by
  unfold ConvConversation.ingest ConvConversation.raiseAttentionWhenAgentIsOff
  dsimp only
  split
  · exact ⟨rfl, .inl rfl⟩
  · split
    · exact ⟨rfl, .inr rfl⟩
    · exact ⟨rfl, .inr rfl⟩

theorem Consistent.ingest (hawake : r.status ≠ .snoozed) (spamSender : Bool)
    (topicMode : Option ConversationAgentMode) (receivedAt now : Instant) :
    (r.ingest spamSender topicMode receivedAt now).Consistent := by
  unfold ConvConversation.ingest
  dsimp only
  split
  · have hnone : ¬ r.snoozeUntil.isSome = true := fun hsome => hawake (h.snoozed.1 hsome)
    exact ⟨by simp, by simp, by simp [hnone], fun _ => rfl⟩
  · exact (h.lastMessageAt (some receivedAt)).raiseAttentionWhenAgentIsOff topicMode now

/-- The updates of `ingestOne`, with the reopening before them. -/
theorem Consistent.joined_iff (spamSender : Bool)
    (topicMode : Option ConversationAgentMode) (receivedAt now : Instant) :
    ((if r.status = .snoozed then r.reopenClosedConversation else r).ingest spamSender topicMode
      receivedAt now).Consistent ↔ r.status ≠ .snoozed := by
  by_cases hsnoozed : r.status = .snoozed
  · rw [if_pos hsnoozed]
    refine ⟨fun hc => ?_, fun hne => absurd hsnoozed hne⟩
    have hreopened : r.reopenClosedConversation = { r with status := .opened } :=
      if_pos (.inr hsnoozed)
    rw [hreopened] at hc
    obtain ⟨huntil, hstatus⟩ := ingest_columns { r with status := .opened } spamSender topicMode
      receivedAt now
    have hstill := hc.snoozed
    rw [huntil] at hstill
    rcases hstatus with hspam | hopened
    · exact absurd (hspam.symm.trans (hstill.1 (h.snoozed.2 hsnoozed))) (by decide)
    · exact absurd (hopened.symm.trans (hstill.1 (h.snoozed.2 hsnoozed))) (by simp)
  · rw [if_neg hsnoozed]
    exact ⟨fun _ => hsnoozed, fun _ => h.ingest hsnoozed spamSender topicMode receivedAt now⟩

end Consistent

end ConvConversation

/-! ### Runs -/

section Runs

variable {rows rows' : List ConvConversation}

/-- What holds of every conversation after the update of one. -/
theorem forall_updateConversation {P : ConvConversation → Prop} {id : String}
    {f : ConvConversation → ConvConversation} (hrows : ∀ r ∈ rows, P r) :
    (∀ r ∈ updateConversation id f rows, P r) ↔ ∀ r ∈ rows, r.id = id → P (f r) := by
  unfold updateConversation
  rw [List.forall_mem_map]
  constructor
  · intro h r hr hid
    have := h r hr
    rwa [if_pos hid] at this
  · intro h r hr
    split
    · rename_i hid
      exact h r hr hid
    · exact hrows r hr

theorem ConvConversation.create_fresh (id channelId contactId : String)
    (agentMode : ConversationAgentMode) (spamSender : Bool) (receivedAt : Instant) :
    (ConvConversation.create id channelId contactId agentMode spamSender receivedAt).Fresh where
  status := by
    unfold ConvConversation.create
    cases spamSender with
    | true => simp
    | false => simp
  snoozeUntil := rfl
  needsHumanAttention := rfl
  needsHumanAttentionAt := rfl
  handoverResolvedAt := rfl

/-- **The step lemma, exactly**: an operation keeps the law if and only if it is one that keeps the
columns together. -/
theorem step_consistent_iff (hrows : ∀ r ∈ rows, r.Consistent) {op : ConversationOp}
    (h : stepConversations rows op = some rows') :
    (∀ r ∈ rows', r.Consistent) ↔ KeepsFlags rows op := by
  cases op with
  | requestHandover id claimed now =>
    obtain ⟨-, hset⟩ := Option.ite_none_right_eq_some.1 h
    obtain rfl := Option.some.inj hset
    rw [forall_updateConversation hrows]
    exact forall₃_congr fun r hr _ => (hrows r hr).requestHandover_iff claimed now
  | sendMessage id authorType internal preserveAttention topicMode now =>
    obtain ⟨-, hset⟩ := Option.ite_none_right_eq_some.1 h
    obtain rfl := Option.some.inj hset
    rw [forall_updateConversation hrows]
    exact iff_of_true (fun r hr _ => (hrows r hr).sendMessage authorType internal
      preserveAttention topicMode now) trivial
  | changeStatus id status snoozeUntil now =>
    obtain ⟨hgiven, hfound⟩ := Option.ite_none_left_eq_some.1 h
    obtain ⟨hany, hset⟩ := Option.ite_none_right_eq_some.1 hfound
    obtain rfl := Option.some.inj hset
    have hgiven : status = .snoozed → snoozeUntil ≠ none := not_and.1 hgiven
    rw [forall_updateConversation hrows]
    constructor
    · intro hall
      obtain ⟨r, hr, hid⟩ := List.any_eq_true.1 hany
      exact ((hrows r hr).changeStatus_iff hgiven now).1 (hall r hr (of_decide_eq_true hid))
    · intro hfits r hr _
      exact ((hrows r hr).changeStatus_iff hgiven now).2 hfits
  | wakeDueSnoozedConversations now =>
    obtain rfl := Option.some.inj h
    rw [List.forall_mem_map]
    exact iff_of_true (fun r hr => (hrows r hr).wake now) trivial
  | raiseAttentionWhenAgentIsOff id topicMode now =>
    obtain rfl := Option.some.inj h
    rw [forall_updateConversation hrows]
    exact iff_of_true (fun r hr _ => (hrows r hr).raiseAttentionWhenAgentIsOff topicMode now)
      trivial
  | reopenClosedConversation id =>
    obtain rfl := Option.some.inj h
    rw [forall_updateConversation hrows]
    exact forall₃_congr fun r hr _ => (hrows r hr).reopenClosedConversation_iff
  | ingest channelId contactId found newId defaultAgentMode spamSender topicMode receivedAt now =>
    obtain ⟨-, hset⟩ := Option.ite_none_right_eq_some.1 h
    cases found with
    | some id =>
      obtain rfl := Option.some.inj hset
      rw [forall_updateConversation hrows]
      simp only [KeepsFlags, Option.some.injEq]
      exact forall₃_congr fun r hr _ =>
        (hrows r hr).joined_iff spamSender topicMode receivedAt now
    | none =>
      obtain rfl := Option.some.inj hset
      have hfresh := ConvConversation.create_fresh newId channelId contactId defaultAgentMode
        spamSender receivedAt
      refine iff_of_true ?_ (by simp [KeepsFlags])
      intro r hr
      rcases List.mem_append.1 hr with hold | hnew
      · exact hrows r hold
      · obtain rfl := List.mem_singleton.1 hnew
        exact hfresh.consistent.ingest hfresh.status spamSender topicMode receivedAt now

/-- **Flags stay consistent**: in every state of every run of operations that keep the columns
together. -/
theorem flags_consistent
    (h : conversations.Reaches (fun rows => ∀ r ∈ rows, r.Fresh) KeepsFlags rows) :
    ∀ r ∈ rows, r.Consistent := by
  refine Machine.Reaches.invariant (I := fun rows => ∀ r ∈ rows, r.Consistent) ?_ ?_ h
  · intro rows hfresh r hr
    exact (hfresh r hr).consistent
  · intro rows rows' op _ hrows hop hstep
    exact (step_consistent_iff hrows hstep).2 hop

end Runs

/-! ### Runs on fixed conversations -/

/-- The first message of a conversation. -/
def firstMessage : ConversationOp := .ingest "chn_1" "cct_1" none "ccv_1" .auto false none 1 1

/-- The conversation is snoozed, woken, answered and closed. -/
def answeredConversation : List ConversationOp :=
  [firstMessage, .changeStatus "ccv_1" .snoozed (some 5) 2, .wakeDueSnoozedConversations 6,
    .sendMessage "ccv_1" .user false false none 7, .changeStatus "ccv_1" .closed none 8]

theorem flags_consistent_sample :
    ∃ rows, conversations.runUnder KeepsFlags [] answeredConversation = some rows ∧
      ∀ r ∈ rows, r.Consistent := by
  have hrun : (conversations.runUnder KeepsFlags [] answeredConversation).isSome = true := by
    decide +kernel
  obtain ⟨rows, hrows⟩ := Option.isSome_iff_exists.1 hrun
  have hstart : ∀ r ∈ ([] : List ConvConversation), r.Fresh := by simp
  exact ⟨rows, hrows, flags_consistent (Machine.Reaches.runUnder (.start hstart) hrows)⟩

/-- The customer writes while the conversation is snoozed. -/
def wakingMessage : List ConversationOp :=
  [firstMessage, .changeStatus "ccv_1" .snoozed (some 5) 2,
    .ingest "chn_1" "cct_1" (some "ccv_1") "" .auto false none 3 3]

/-- The agent of a closed conversation asks for a handover. -/
def lateHandover : List ConversationOp :=
  [firstMessage, .changeStatus "ccv_1" .closed none 2, .requestHandover "ccv_1" false 3]

/-- **Columns that do not belong together**: an open conversation with a moment of waking, and a
closed one that is flagged for a human's attention. -/
theorem flags_inconsistent :
    (conversations.run [] wakingMessage).map (·.map fun r => (r.status, r.snoozeUntil)) =
        some [(.opened, some 5)] ∧
      (conversations.run [] lateHandover).map (·.map fun r => (r.status, r.needsHumanAttention)) =
        some [(.closed, true)] ∧
      ∀ r : ConvConversation, r.status = .opened ∧ r.snoozeUntil = some 5 ∨
        r.status = .closed ∧ r.needsHumanAttention = true → ¬ r.Consistent := by
  refine ⟨by decide +kernel, by decide +kernel, ?_⟩
  rintro r (⟨hstatus, huntil⟩ | ⟨hstatus, hflagged⟩) hc
  · have hsnoozed := hc.snoozed.1 (by rw [huntil]; rfl)
    exact absurd (hstatus.symm.trans hsnoozed) (by decide)
  · exact absurd (hflagged.symm.trans (hc.settled (.inl hstatus))) (by decide)

end Munin
