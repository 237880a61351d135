import Munin.Conversations.Flags
import Munin.Foundations.BulkUpdate
import Munin.Foundations.Sessions

/-!
# Closing conversations that nobody answers

A sweep reads the conversations whose customer has not answered for some days, up to a hundred of
them, and then closes them one by one, by their ids alone. Messages, handovers and status changes
are transactions of their own; they may commit between the read and the update.

* **`Inbox`, `inboxSessions`** — the tables, and the statements of the sweep and of the calls that
  go on beside it, under read committed isolation.
* **`Closing.Due`** — the law for an update that closes a conversation, in the state that it acted
  on: open, not flagged, inactive, and answered by us.
* **`BringsNews`** — what a transaction has written into a conversation counts for the law: a public
  message, or another status, flag or last activity.
* **`closes_only_due`** — the law holds if no transaction commits such news of a conversation that a
  sweep has read and not closed yet; `closes_waiting_customer` is a run in which one does.
-/

namespace Munin

open Foundations

/-! ### The inbox -/

/-- A conversation, with the columns that only the sweep looks at. -/
structure InboxConversation where
  conv : ConvConversation
  endUserId : Option String := none
  channelType : String := "chat"
  unengaged : Bool := false

/-- A message; its conversation is named by its place in the table. -/
structure InboxMessage where
  conversation : ℕ
  authorType : MessageAuthor
  internal : Bool := false
  createdAt : Instant

/-- A message of ours. -/
def InboxMessage.IsOurs (m : InboxMessage) : Prop := m.authorType = .agent ∨ m.authorType = .user

instance (m : InboxMessage) : Decidable m.IsOurs := inferInstanceAs (Decidable (_ ∨ _))

/-- A public message of a conversation. -/
def InboxMessage.IsPublicOf (m : InboxMessage) (i : ℕ) : Prop :=
  m.conversation = i ∧ m.internal = false

instance (m : InboxMessage) (i : ℕ) : Decidable (m.IsPublicOf i) :=
  inferInstanceAs (Decidable (_ ∧ _))

/-- The last public message of a conversation is ours; where several are last, one of them. -/
def AnsweredByUs (messages : List InboxMessage) (i : ℕ) : Prop :=
  ∃ m ∈ messages, m.IsPublicOf i ∧ m.IsOurs ∧
    ∀ m' ∈ messages, m'.IsPublicOf i → m'.createdAt ≤ m.createdAt

instance (messages : List InboxMessage) (i : ℕ) : Decidable (AnsweredByUs messages i) :=
  inferInstanceAs (Decidable (∃ m ∈ _, _))

/-- A conversation as the law wants it when it is closed. -/
def ConvConversation.IsIdle (c : ConvConversation) (threshold : Instant) : Prop :=
  c.status = .opened ∧ c.needsHumanAttention = false ∧ c.lastMessageAt.any (· < threshold) = true

instance (c : ConvConversation) (threshold : Instant) : Decidable (c.IsIdle threshold) :=
  inferInstanceAs (Decidable (_ ∧ _))

/-- `now() - make_interval(days => thresholdDays)`. -/
def inactiveSince (thresholdDays : ℕ) (now : Instant) : Instant := now - thresholdDays * 86400000

/-- An update that closed a conversation: the place and the row that it found, the messages that
were there, and what counted as inactive. -/
structure Closing where
  place : ℕ
  conversation : InboxConversation
  messages : List InboxMessage
  threshold : Instant

/-- **The law**, for one update that closes a conversation. -/
def Closing.Due (c : Closing) : Prop :=
  c.conversation.conv.IsIdle c.threshold ∧ AnsweredByUs c.messages c.place

instance (c : Closing) : Decidable c.Due := inferInstanceAs (Decidable (_ ∧ _))

/-- The tables; which conversations each sweep has read and not closed yet; and the closings. -/
structure Inbox where
  conversations : TxTable InboxConversation := []
  messages : TxTable InboxMessage := []
  swept : List (ℕ × ℕ) := []
  closings : List Closing := []

namespace Inbox

variable (db : Inbox)

def commit (t : ℕ) : Inbox where
  conversations := db.conversations.commit t
  messages := db.messages.commit t
  swept := db.swept.filter (·.1 ≠ t)
  closings := db.closings

def abort (t : ℕ) : Inbox where
  conversations := db.conversations.abort t
  messages := db.messages.abort t
  swept := db.swept.filter (·.1 ≠ t)
  closings := db.closings

/-- The condition of `listConversationsAwaitingUserReply`. -/
def AwaitsUserReply (t i : ℕ) (threshold : Instant) (c : InboxConversation) : Prop :=
  c.conv.IsIdle threshold ∧ c.endUserId.isSome = true ∧ c.unengaged = false ∧
    c.channelType ≠ "voice" ∧ AnsweredByUs (db.messages.view t) i

instance (t i : ℕ) (threshold : Instant) (c : InboxConversation) :
    Decidable (db.AwaitsUserReply t i threshold c) := inferInstanceAs (Decidable (_ ∧ _))

/-- `listConversationsAwaitingUserReply`: the hundred that have been inactive for longest. -/
def listConversationsAwaitingUserReply (t : ℕ) (threshold : Instant) : List ℕ :=
  let waiting := (List.range db.conversations.length).filter fun i =>
    (db.conversations.seen t i).any fun c => db.AwaitsUserReply t i threshold c
  let lastMessageAt := fun i => (db.conversations.seen t i).bind (·.conv.lastMessageAt)
  (waiting.mergeSort fun i j => (lastMessageAt i).getD 0 ≤ (lastMessageAt j).getD 0).take 100

end Inbox

/-! ### The calls -/

/-- A statement that writes. -/
inductive InboxStmt where
  /-- A conversation with its first message. -/
  | create (c : InboxConversation) (authorType : MessageAuthor) (createdAt : Instant)
  | insert (m : InboxMessage)
  | update (i : ℕ) (p : ConvConversation → Bool) (f : ConvConversation → ConvConversation)
  /-- `markConversationEngaged`. -/
  | engage (i : ℕ)

/-- `reopenClosedConversation`. -/
def InboxStmt.reopen (i : ℕ) : InboxStmt :=
  .update i (fun r => r.status = .closed ∨ r.status = .snoozed) (·.reopenClosedConversation)

/-- The calls that go on beside the sweep. -/
inductive InboxOp where
  | createConversation (c : InboxConversation) (authorType : MessageAuthor) (now : Instant)
  | sendMessage (i : ℕ) (authorType : MessageAuthor) (internal preserveAttention : Bool)
      (topicMode : Option ConversationAgentMode) (now : Instant)
  | requestHandover (i : ℕ) (claimed postSystemNote publicFallback : Bool) (now : Instant)
  | changeStatus (i : ℕ) (status : ConversationStatus) (snoozeUntil : Option Instant)
      (now : Instant)
  | wakeDueSnoozedConversations (now : Instant)
  | reopenClosedConversation (i : ℕ)
  /-- `ingestOne`, where the message joins a conversation. -/
  | ingest (i : ℕ) (spamSender : Bool) (topicMode : Option ConversationAgentMode)
      (receivedAt now : Instant)

/-- The statements that a call goes on with, once it has read the conversation. -/
def InboxOp.stmts (db : Inbox) (t : ℕ) : InboxOp → List InboxStmt
  | .createConversation c authorType now => [.create c authorType now]
  | .sendMessage i authorType internal preserveAttention topicMode now =>
    [.insert ⟨i, authorType, internal, now⟩,
      .update i (fun _ => true)
        (·.sendMessage authorType internal preserveAttention topicMode now)] ++
      if authorType = .endUser ∨ authorType = .user then [.engage i] else []
  | .requestHandover i claimed postSystemNote publicFallback now =>
    if (db.conversations.seen t i).all fun c => c.conv.needsHumanAttention || claimed then []
    else
      (if postSystemNote then [.insert ⟨i, .agent, true, now⟩] else []) ++
      (if publicFallback then [.insert ⟨i, .agent, false, now⟩] else []) ++
      [.update i (fun _ => true) fun r => { r.raiseAttention now with lastMessageAt := some now }]
  | .changeStatus i status snoozeUntil now =>
    if status = .snoozed ∧ snoozeUntil = none then []
    else [.update i (fun _ => true) (·.changeStatus status snoozeUntil now)]
  | .wakeDueSnoozedConversations now =>
    (List.range db.conversations.length).map fun i =>
      .update i (fun r => r.status = .snoozed ∧ r.snoozeUntil.any (· ≤ now)) (·.wake now)
  | .reopenClosedConversation i => [.reopen i]
  | .ingest i spamSender topicMode receivedAt now =>
    let joins : List InboxStmt :=
      [.insert ⟨i, .endUser, false, now⟩,
        .update i (fun _ => true) (·.ingest spamSender topicMode receivedAt now)]
    if (db.conversations.seen t i).any (·.conv.status = .opened) then joins
    else if (db.conversations.seen t i).any (·.conv.status = .snoozed) then .reopen i :: joins
    else []

/-- Where a transaction stands. A call may fail after some of its statements, and a sweep after some
of its closings. -/
inductive InboxPoint where
  | call (op : InboxOp) (fails : Option ℕ)
  | write (rest : List InboxStmt) (fails : Bool)
  /-- `autoCloseInactive`. -/
  | sweep (thresholdDays : ℕ) (now : Instant) (fails : Option ℕ)
  | closing (thresholdDays : ℕ) (now : Instant) (fails : Option ℕ)

namespace InboxPoint

def entry : InboxPoint → Bool
  | .call .. | .sweep .. => true
  | _ => false

/-- A conditional update of one conversation: the statement waits for a row only if it finds it. -/
def updateConversation (t i : ℕ) (p : InboxConversation → Bool)
    (f : InboxConversation → InboxConversation) (db : Inbox) : Option Inbox :=
  if (db.conversations.seen t i).any p then
    (db.conversations.updateFound t i p f).map fun conversations => { db with conversations }
  else some db

/-- A statement of a call; `none` while it waits. -/
def writeStmt (t : ℕ) (db : Inbox) : InboxStmt → Option Inbox
  | .create c authorType createdAt => some
    { db with
      conversations := db.conversations ++ [⟨none, some (t, c)⟩]
      messages := db.messages ++
        [⟨none, some (t, ⟨db.conversations.length, authorType, false, createdAt⟩)⟩] }
  | .insert m => some { db with messages := db.messages ++ [⟨none, some (t, m)⟩] }
  | .update i p f =>
    updateConversation t i (fun c => p c.conv) (fun c => { c with conv := f c.conv }) db
  | .engage i => updateConversation t i (·.unengaged) ({ · with unengaged := false }) db

/-- `changeStatus({ id, status: 'closed' })`, whatever the row has become since it was read. -/
def close (t i thresholdDays : ℕ) (now : Instant) (db : Inbox) : Option Inbox :=
  (db.conversations.seen t i).bind fun c =>
    (db.conversations.updateFound t i (fun _ => true) fun c =>
      { c with conv := c.conv.changeStatus .closed none now }).map fun conversations =>
      { db with
        conversations
        swept := db.swept.filter (· ≠ (t, i))
        closings := ⟨i, c, db.messages.view t, inactiveSince thresholdDays now⟩ :: db.closings }

/-- One statement. -/
def exec (t : ℕ) (point : InboxPoint) (db : Inbox) : Option (Inbox × Option InboxPoint) :=
  match point with
  | .call op fails =>
    let stmts := op.stmts db t
    some (db, some (.write (match fails with | none => stmts | some n => stmts.take n)
      fails.isSome))
  | .write (stmt :: rest) fails =>
    (writeStmt t db stmt).map fun db => (db, some (.write rest fails))
  | .write [] fails => some (if fails then db.abort t else db.commit t, none)
  | .sweep thresholdDays now fails =>
    let found := db.listConversationsAwaitingUserReply t (inactiveSince thresholdDays now)
    some ({ db with swept := db.swept ++ found.map (t, ·) },
      some (.closing thresholdDays now fails))
  | .closing thresholdDays now fails =>
    match db.swept.find? (·.1 = t) with
    | none => some (db.commit t, none)
    | some (_, i) =>
      if fails = some 0 then some (db.abort t, none)
      else (close t i thresholdDays now db).map fun db =>
        (db, some (.closing thresholdDays now (fails.map (· - 1))))

/-- The statements after which a transaction's writes are committed. -/
def Commits (t : ℕ) (db : Inbox) : InboxPoint → Prop
  | .write [] fails => fails = false
  | .closing .. => db.swept.find? (·.1 = t) = none
  | _ => False

instance (t : ℕ) (db : Inbox) (p : InboxPoint) : Decidable (p.Commits t db) := by
  unfold Commits
  split <;> infer_instance

end InboxPoint

/-- The sweeps and the calls, as sessions on the inbox. -/
def inboxSessions : Sessions Inbox InboxPoint where
  entry := InboxPoint.entry
  exec := InboxPoint.exec

/-! ### News of a conversation -/

/-- The columns that the law is about. -/
def InboxConversation.watched (c : InboxConversation) :
    ConversationStatus × Bool × Option Instant :=
  (c.conv.status, c.conv.needsHumanAttention, c.conv.lastMessageAt)

/-- **News**: the transaction has written a public message into the conversation, or another status,
flag or last activity. -/
def BringsNews (db : Inbox) (t i : ℕ) : Prop :=
  (db.conversations.own t i).any (fun c =>
      (db.conversations.com i).all fun old => c.watched ≠ old.watched) = true ∨
    ∃ r ∈ db.messages, ∃ p ∈ r.pending, p.1 = t ∧ p.2.IsPublicOf i

instance (db : Inbox) (t i : ℕ) : Decidable (BringsNews db t i) :=
  inferInstanceAs (Decidable (_ ∨ _))

/-- **The condition**: no transaction commits news of a conversation that another one, a sweep, has
read and not closed yet. -/
def NoNewsForSweeps (t : ℕ) (p : InboxPoint) (db : Inbox) : Prop :=
  p.Commits t db → ∀ e ∈ db.swept, e.1 ≠ t → ¬ BringsNews db t e.2

instance (t : ℕ) (p : InboxPoint) (db : Inbox) : Decidable (NoNewsForSweeps t p db) :=
  inferInstanceAs (Decidable (_ → _))

/-- The inbox before any transaction: everything is committed. -/
structure Inbox.Settled (db : Inbox) : Prop where
  conversations : ∀ r ∈ db.conversations, r.pending = none
  messages : ∀ r ∈ db.messages, r.pending = none
  swept : db.swept = []
  closings : db.closings = []

/-! ### What is committed of the messages -/

namespace Inbox

/-- Messages are inserted and never written again. -/
def InsertsMessages (db : Inbox) : Prop :=
  ∀ r ∈ db.messages, r.pending.isSome = true → r.committed = none

/-- A transaction has no messages that are not committed. -/
def NoMessagesOf (db : Inbox) (t : ℕ) : Prop :=
  ∀ r ∈ db.messages, ∀ p ∈ r.pending, p.1 ≠ t

/-- The messages that are committed. -/
def committedMessages (db : Inbox) : List InboxMessage := db.messages.filterMap (·.committed)

theorem mem_committedMessages {db : Inbox} {m : InboxMessage} :
    m ∈ db.committedMessages ↔ ∃ r ∈ db.messages, r.committed = some m :=
  List.mem_filterMap

theorem NoMessagesOf.view_eq {db : Inbox} {t : ℕ} (h : db.NoMessagesOf t) :
    db.messages.view t = db.committedMessages := by
  refine List.filterMap_congr fun r hr => ?_
  exact VersionedRow.seenBy_of_not fun v hv => h r hr (t, v) hv rfl

end Inbox

/-- What the law says of messages depends on the public ones of the conversation. -/
theorem AnsweredByUs.congr {l l' : List InboxMessage} {i : ℕ}
    (h : ∀ m : InboxMessage, m.IsPublicOf i → (m ∈ l ↔ m ∈ l')) (ha : AnsweredByUs l i) :
    AnsweredByUs l' i := by
  obtain ⟨m, hm, hpublic, hours, hlast⟩ := ha
  exact ⟨m, (h m hpublic).1 hm, hpublic, hours,
    fun m' hm' hpublic' => hlast m' ((h m' hpublic').2 hm') hpublic'⟩

/-- A conversation that a sweep may close. -/
structure Inbox.Ripe (db : Inbox) (threshold : Instant) (i : ℕ) : Prop where
  idle : ∃ c, db.conversations.com i = some c ∧ c.conv.IsIdle threshold
  answered : AnsweredByUs db.committedMessages i

theorem ConvConversation.IsIdle.of_watched {c c' : InboxConversation} {threshold : Instant}
    (hw : c'.watched = c.watched) (h : c.conv.IsIdle threshold) : c'.conv.IsIdle threshold := by
  simp only [InboxConversation.watched, Prod.mk.injEq] at hw
  obtain ⟨hstatus, hflag, hlast⟩ := hw
  exact ⟨hstatus ▸ h.1, hflag ▸ h.2.1, hlast ▸ h.2.2⟩

/-! ### What one transaction leaves alone -/

/-- What the transactions beside `t` may rely on, when `t` takes a step. -/
structure Beside (t : ℕ) (db db' : Inbox) : Prop where
  own : ∀ u, u ≠ t → db'.conversations.own u = db.conversations.own u
  messages : ∀ u, u ≠ t → db.NoMessagesOf u → db'.NoMessagesOf u
  swept : ∀ e, e.1 ≠ t → (e ∈ db'.swept ↔ e ∈ db.swept)
  ripe : ∀ e ∈ db.swept, e.1 ≠ t → ∀ threshold, db.Ripe threshold e.2 → db'.Ripe threshold e.2

namespace Beside

variable {t : ℕ} {db : Inbox}

theorem refl : Beside t db db where
  own _ _ := rfl
  messages _ _ h := h
  swept _ _ := Iff.rfl
  ripe _ _ _ _ h := h

variable {db' : Inbox} {conversations : TxTable InboxConversation} {i : ℕ}
  {p : InboxConversation → Bool} {f : InboxConversation → InboxConversation}

/-- A statement that commits nothing. -/
theorem of_com (hown : ∀ u, u ≠ t → db'.conversations.own u = db.conversations.own u)
    (hcom : db'.conversations.com = db.conversations.com)
    (hmessages : ∀ u, u ≠ t → db.NoMessagesOf u → db'.NoMessagesOf u)
    (hcommitted : db'.committedMessages = db.committedMessages)
    (hswept : ∀ e, e.1 ≠ t → (e ∈ db'.swept ↔ e ∈ db.swept)) : Beside t db db' where
  own := hown
  messages := hmessages
  swept := hswept
  ripe _ _ _ _ h := ⟨hcom ▸ h.idle, hcommitted ▸ h.answered⟩

/-- A statement that inserts a message. -/
theorem insert (m : InboxMessage) (hown : ∀ u, u ≠ t → conversations.own u = db.conversations.own u)
    (hcom : conversations.com = db.conversations.com) :
    Beside t db
      { db with conversations, messages := db.messages ++ [⟨none, some (t, m)⟩] } := by
  refine of_com hown hcom (fun u hu h r hr p hp => ?_) ?_ fun _ _ => Iff.rfl
  · rcases List.mem_append.1 hr with hr | hr
    · exact h r hr p hp
    · obtain rfl := List.mem_singleton.1 hr
      obtain rfl : (t, m) = p := Option.some.inj hp
      exact hu.symm
  · simp [Inbox.committedMessages]

/-- A statement that updates a conversation. -/
theorem update {swept : List (ℕ × ℕ)} {closings : List Closing}
    (h : db.conversations.updateFound t i p f = some conversations)
    (hswept : ∀ e : ℕ × ℕ, e.1 ≠ t → (e ∈ swept ↔ e ∈ db.swept)) :
    Beside t db { db with conversations, swept, closings } := by
  have hup := TxTable.updateFound_eq_some h
  exact of_com (fun u hu => funext fun j => hup.other u j hu) (funext hup.com) (fun _ _ h => h) rfl
    hswept

theorem updateConversation
    (h : InboxPoint.updateConversation t i p f db = some db') : Beside t db db' := by
  unfold InboxPoint.updateConversation at h
  split at h
  · obtain ⟨conversations, hup, rfl⟩ := Option.map_eq_some_iff.1 h
    exact update hup fun _ _ => Iff.rfl
  · cases h
    exact refl

theorem mem_filter_ne {e : ℕ × ℕ} (he : e.1 ≠ t) :
    e ∈ db.swept.filter (·.1 ≠ t) ↔ e ∈ db.swept := by
  simp [List.mem_filter, he]

/-- When a transaction has ended, the pending messages are the others'. -/
theorem messages_of_ended {f : VersionedRow InboxMessage → VersionedRow InboxMessage}
    (hf : ∀ r, VersionedRow.Ended t r (f r)) (hmap : db'.messages = db.messages.map f) {u : ℕ}
    (h : u ≠ t → db.NoMessagesOf u) : db'.NoMessagesOf u := by
  intro r hr p hp hpu
  obtain ⟨r', hr', rfl⟩ := List.mem_map.1 (hmap ▸ hr)
  rcases hf r' with hnone | ⟨hsame, hnot⟩
  · rw [hnone] at hp
    cases hp
  · rw [hsame] at hp
    refine h (fun hut => ?_) r' hr' p hp hpu
    exact hnot p.2 (by rw [hp, ← hut, ← hpu])

theorem abort : Beside t db (db.abort t) := by
  refine of_com (fun u hu => funext fun i => ?_) (funext fun i => TxTable.com_abort _ t i)
    (fun _ _ h => messages_of_ended (·.ended_abort t) rfl fun _ => h) ?_
    fun e he => mem_filter_ne he
  · exact (TxTable.own_abort _ t u i).trans (if_neg hu)
  · unfold Inbox.committedMessages Inbox.abort TxTable.abort
    rw [List.filterMap_map]
    refine List.filterMap_congr fun r _ => ?_
    rcases r.writes_or_not t with ⟨v, hv⟩ | hnot
    · exact congrArg _ (VersionedRow.abort_of_pending hv)
    · exact congrArg _ (VersionedRow.abort_of_not hnot)

/-- A commit without news leaves an idle conversation idle. -/
theorem idle_of_commit {threshold : Instant} (hquiet : ¬ BringsNews db t i)
    (h : ∃ c, db.conversations.com i = some c ∧ c.conv.IsIdle threshold) :
    ∃ c, (db.commit t).conversations.com i = some c ∧ c.conv.IsIdle threshold := by
  obtain ⟨c, hc, hidle⟩ := h
  have hcom : (db.commit t).conversations.com i = db.conversations.seen t i :=
    TxTable.com_commit _ t i
  cases hown : db.conversations.own t i with
  | none => exact ⟨c, by rw [hcom, TxTable.seen_of_not hown, hc], hidle⟩
  | some c' =>
    refine ⟨c', hcom.trans (TxTable.seen_of_own hown), hidle.of_watched ?_⟩
    by_contra hne
    exact hquiet (.inl (by simp [hown, hc, hne]))

/-- A commit without news leaves the public messages of a conversation as they are. -/
theorem mem_committedMessages_commit {m : InboxMessage} (hinsert : db.InsertsMessages)
    (hquiet : ¬ BringsNews db t i) (hm : m.IsPublicOf i) :
    m ∈ db.committedMessages ↔ m ∈ (db.commit t).committedMessages := by
  rw [Inbox.mem_committedMessages, Inbox.mem_committedMessages]
  constructor
  · rintro ⟨r, hr, hrm⟩
    refine ⟨r.commit t, List.mem_map_of_mem hr, ?_⟩
    rcases r.writes_or_not t with ⟨v, hv⟩ | hnot
    · rw [hinsert r hr (by rw [hv]; rfl)] at hrm
      cases hrm
    · rw [VersionedRow.commit_of_not hnot, hrm]
  · rintro ⟨_, hcommitted, hrm⟩
    obtain ⟨r, hr, rfl⟩ := List.mem_map.1 hcommitted
    rcases r.writes_or_not t with ⟨v, hv⟩ | hnot
    · rw [VersionedRow.commit_of_pending hv] at hrm
      obtain rfl := Option.some.inj hrm
      exact absurd (.inr ⟨r, hr, (t, v), hv, rfl, hm⟩) hquiet
    · rw [VersionedRow.commit_of_not hnot] at hrm
      exact ⟨r, hr, hrm⟩

theorem commit (hinsert : db.InsertsMessages)
    (hquiet : ∀ e ∈ db.swept, e.1 ≠ t → ¬ BringsNews db t e.2) : Beside t db (db.commit t) where
  own u hu := funext fun i => (TxTable.own_commit _ t u i).trans (if_neg hu)
  messages _ _ h := messages_of_ended (·.ended_commit t) rfl fun _ => h
  swept _ he := mem_filter_ne he
  ripe e he het _ h := by
    have hnews := hquiet e he het
    exact ⟨idle_of_commit hnews h.idle,
      h.answered.congr fun _ hm => mem_committedMessages_commit hinsert hnews hm⟩

end Beside

/-! ### The outline of the sweep -/

/-- What holds of the tables at every moment: messages are only inserted, and the closings so far
obeyed the law. -/
structure Inbox.Lawful (db : Inbox) : Prop where
  insertsMessages : db.InsertsMessages
  due : ∀ c ∈ db.closings, c.Due

/-- A transaction that has written nothing yet. -/
structure Inbox.Clean (db : Inbox) (t : ℕ) : Prop where
  own : ∀ i, db.conversations.own t i = none
  messages : db.NoMessagesOf t
  swept : ∀ e ∈ db.swept, e.1 ≠ t

/-- A sweep that is closing: what it has not closed yet may be closed. -/
structure Inbox.Sweeping (db : Inbox) (t : ℕ) (threshold : Instant) : Prop where
  messages : db.NoMessagesOf t
  own : ∀ e ∈ db.swept, e.1 = t → db.conversations.own t e.2 = none
  ripe : ∀ e ∈ db.swept, e.1 = t → db.Ripe threshold e.2

/-- What a transaction may rely on where it stands. -/
def InboxPoint.Assertion (t : ℕ) : Option InboxPoint → Inbox → Prop
  | some (.write ..), db => ∀ e ∈ db.swept, e.1 ≠ t
  | some (.closing thresholdDays now _), db => db.Sweeping t (inactiveSince thresholdDays now)
  | _, db => db.Clean t

section Outline

variable {t : ℕ} {db db' : Inbox}

variable {u : ℕ}

theorem Inbox.Clean.of_beside (hu : u ≠ t) (h : Beside t db db') (hclean : db.Clean u) :
    db'.Clean u where
  own i := (congrFun (h.own u hu) i).trans (hclean.own i)
  messages := h.messages u hu hclean.messages
  swept e he heu := hclean.swept e ((h.swept e (heu ▸ hu)).1 he) heu

theorem Inbox.Sweeping.of_beside {threshold : Instant} (hu : u ≠ t)
    (h : Beside t db db') (hsweeping : db.Sweeping u threshold) : db'.Sweeping u threshold where
  messages := h.messages u hu hsweeping.messages
  own e he heu := by
    have hold := (h.swept e (heu ▸ hu)).1 he
    exact (congrFun (h.own u hu) e.2).trans (hsweeping.own e hold heu)
  ripe e he heu := by
    have hold := (h.swept e (heu ▸ hu)).1 he
    exact h.ripe e hold (heu ▸ hu) threshold (hsweeping.ripe e hold heu)

variable {q : Option InboxPoint}

/-- What other transactions rely on survives a step. -/
theorem InboxPoint.Assertion.of_beside (hu : u ≠ t)
    (h : Beside t db db') (hA : InboxPoint.Assertion u q db) : InboxPoint.Assertion u q db' := by
  match q with
  | some (.write ..) => exact fun e he heu => hA e ((h.swept e (heu ▸ hu)).1 he) heu
  | some (.closing ..) => exact Inbox.Sweeping.of_beside hu h hA
  | some (.call ..) | some (.sweep ..) | none => exact Inbox.Clean.of_beside hu h hA

theorem Inbox.Clean.commit (t : ℕ) (db : Inbox) : (db.commit t).Clean t where
  own i := (TxTable.own_commit _ t t i).trans (if_pos rfl)
  messages := Beside.messages_of_ended (·.ended_commit t) rfl fun h => absurd rfl h
  swept _ he := of_decide_eq_true (List.mem_filter.1 he).2

theorem Inbox.Clean.abort (t : ℕ) (db : Inbox) : (db.abort t).Clean t where
  own i := (TxTable.own_abort _ t t i).trans (if_pos rfl)
  messages := Beside.messages_of_ended (·.ended_abort t) rfl fun h => absurd rfl h
  swept _ he := of_decide_eq_true (List.mem_filter.1 he).2

/-- The end of a transaction keeps the laws. -/
theorem Inbox.Lawful.of_ended {f : VersionedRow InboxMessage → VersionedRow InboxMessage}
    (hf : ∀ r, VersionedRow.Ended t r (f r)) (hmap : db'.messages = db.messages.map f)
    (hclosings : db'.closings = db.closings) (h : db.Lawful) : db'.Lawful where
  insertsMessages := by
    intro r hr hp
    obtain ⟨r', hr', rfl⟩ := List.mem_map.1 (hmap ▸ hr)
    rcases hf r' with hnone | ⟨hsame, -⟩
    · rw [hnone] at hp
      cases hp
    · rw [hsame] at hp ⊢
      exact h.insertsMessages r' hr' hp
  due := hclosings ▸ h.due

/-- A sweep reads conversations that it may close. -/
theorem Inbox.Clean.sweeping {threshold : Instant} (h : db.Clean t) :
    Inbox.Sweeping
      { db with
        swept := db.swept ++ (db.listConversationsAwaitingUserReply t threshold).map (t, ·) }
      t threshold where
  messages := h.messages
  own e _ _ := h.own e.2
  ripe e he het := by
    rcases List.mem_append.1 he with he | he
    · exact absurd het (h.swept e he)
    · obtain ⟨i, hi, rfl⟩ := List.mem_map.1 he
      have hwaiting := List.mem_mergeSort.1 (List.mem_of_mem_take hi)
      obtain ⟨c, hc, hawaits⟩ := (Option.any_eq_true _ _).1 (List.mem_filter.1 hwaiting).2
      have hawaits := of_decide_eq_true hawaits
      exact
        { idle := ⟨c, (TxTable.seen_of_not (h.own i)).symm.trans hc, hawaits.1⟩
          answered := h.messages.view_eq ▸ hawaits.2.2.2.2 }

/-! ### The statements -/

theorem updateConversation_same {i : ℕ} {p : InboxConversation → Bool}
    {f : InboxConversation → InboxConversation}
    (h : InboxPoint.updateConversation t i p f db = some db') :
    db'.messages = db.messages ∧ db'.swept = db.swept ∧ db'.closings = db.closings := by
  unfold InboxPoint.updateConversation at h
  split at h
  · obtain ⟨conversations, -, rfl⟩ := Option.map_eq_some_iff.1 h
    exact ⟨rfl, rfl, rfl⟩
  · cases h
    exact ⟨rfl, rfl, rfl⟩

/-- The statement of a call: what the others rely on stays, and so does what is swept. -/
theorem writeStmt_spec {stmt : InboxStmt} (h : InboxPoint.writeStmt t db stmt = some db')
    (hlaw : db.Lawful) : Beside t db db' ∧ db'.Lawful ∧ db'.swept = db.swept := by
  have hupdate : ∀ i p f, InboxPoint.updateConversation t i p f db = some db' →
      Beside t db db' ∧ db'.Lawful ∧ db'.swept = db.swept := by
    intro i p f hup
    obtain ⟨hmessages, hswept, hclosings⟩ := updateConversation_same hup
    refine ⟨Beside.updateConversation hup, ⟨?_, hclosings ▸ hlaw.due⟩, hswept⟩
    rw [Inbox.InsertsMessages, hmessages]
    exact hlaw.insertsMessages
  have hinsert : ∀ m r, r ∈ db.messages ++ [⟨none, some (t, m)⟩] → r.pending.isSome = true →
      r.committed = none := by
    intro m r hr hp
    rcases List.mem_append.1 hr with hr | hr
    · exact hlaw.insertsMessages r hr hp
    · rw [List.mem_singleton.1 hr]
  cases stmt with
  | create c authorType createdAt =>
    cases h
    refine ⟨Beside.insert _ (fun u hu => funext fun i => ?_) (funext fun i => ?_),
      ⟨hinsert _, hlaw.due⟩, rfl⟩
    · exact (TxTable.own_append _ t u i c).trans (if_neg fun h => hu h.1)
    · exact TxTable.com_append _ t i c
  | insert m =>
    cases h
    exact ⟨Beside.insert m (fun _ _ => rfl) rfl, ⟨hinsert m, hlaw.due⟩, rfl⟩
  | update i p f => exact hupdate _ _ _ h
  | engage i => exact hupdate _ _ _ h

/-- The update that closes a conversation: it acts on a row that no other transaction has written
since the sweep read it, so the law holds of what it finds. -/
theorem close_spec {i thresholdDays : ℕ} {now : Instant} (hi : (t, i) ∈ db.swept)
    (h : InboxPoint.close t i thresholdDays now db = some db') (hlaw : db.Lawful)
    (hsweeping : db.Sweeping t (inactiveSince thresholdDays now)) :
    Beside t db db' ∧ db'.Lawful ∧ db'.Sweeping t (inactiveSince thresholdDays now) := by
  unfold InboxPoint.close at h
  obtain ⟨c, hc, h⟩ := Option.bind_eq_some_iff.1 h
  obtain ⟨conversations, hupdate, rfl⟩ := Option.map_eq_some_iff.1 h
  have hup := TxTable.updateFound_eq_some hupdate
  obtain ⟨⟨c', hcom, hidle⟩, hanswered⟩ := hsweeping.ripe (t, i) hi rfl
  obtain rfl : c = c' := by
    rw [TxTable.seen_of_not (hsweeping.own (t, i) hi rfl), hcom] at hc
    exact (Option.some.inj hc).symm
  refine ⟨Beside.update hupdate fun e he => ?_, ⟨hlaw.insertsMessages, fun closing hclosing => ?_⟩,
    { messages := hsweeping.messages, own := fun e he het => ?_, ripe := fun e he het => ?_ }⟩
  · rw [List.mem_filter]
    refine ⟨fun h => h.1, fun h => ⟨h, decide_eq_true fun heq => he ?_⟩⟩
    rw [heq]
  · rcases List.mem_cons.1 hclosing with rfl | hold
    · exact ⟨hidle, hsweeping.messages.view_eq ▸ hanswered⟩
    · exact hlaw.due closing hold
  · -- the rows that are still to be closed are others
    obtain ⟨hold, hne⟩ := List.mem_filter.1 he
    have hplace : e.2 ≠ i := fun heq => of_decide_eq_true hne (Prod.ext het heq)
    exact (hup.elsewhere e.2 hplace).trans (hsweeping.own e hold het)
  · have hripe := hsweeping.ripe e (List.mem_filter.1 he).1 het
    exact ⟨by rw [hup.com]; exact hripe.idle, hripe.answered⟩

/-- One statement, as far as the outline goes. -/
theorem exec_spec {p : InboxPoint} (hlaw : db.Lawful)
    (hA : InboxPoint.Assertion t (some p) db) (hok : NoNewsForSweeps t p db)
    (h : InboxPoint.exec t p db = some (db', q)) :
    Beside t db db' ∧ db'.Lawful ∧ InboxPoint.Assertion t q db' := by
  have hcommit : p.Commits t db → Beside t db (db.commit t) ∧ (db.commit t).Lawful ∧
      InboxPoint.Assertion t none (db.commit t) := fun hc =>
    ⟨Beside.commit hlaw.insertsMessages (hok hc), hlaw.of_ended (·.ended_commit t) rfl rfl,
      Inbox.Clean.commit t db⟩
  have habort : Beside t db (db.abort t) ∧ (db.abort t).Lawful ∧
      InboxPoint.Assertion t none (db.abort t) :=
    ⟨Beside.abort, hlaw.of_ended (·.ended_abort t) rfl rfl, Inbox.Clean.abort t db⟩
  match p with
  | .call op fails =>
    cases h
    exact ⟨Beside.refl, hlaw, fun e he => (show db.Clean t from hA).swept e he⟩
  | .write (stmt :: rest) fails =>
    obtain ⟨db'', hstmt, heq⟩ := Option.map_eq_some_iff.1 h
    cases heq
    obtain ⟨hbeside, hlaw', hswept⟩ := writeStmt_spec hstmt hlaw
    refine ⟨hbeside, hlaw', ?_⟩
    rw [InboxPoint.Assertion, hswept]
    exact hA
  | .write [] true =>
    cases h
    exact habort
  | .write [] false =>
    cases h
    exact hcommit rfl
  | .sweep thresholdDays now fails =>
    cases h
    refine ⟨?_, ⟨hlaw.insertsMessages, hlaw.due⟩, Inbox.Clean.sweeping hA⟩
    refine Beside.of_com (fun _ _ => rfl) rfl (fun _ _ h => h) rfl fun e he => ?_
    refine List.mem_append.trans (or_iff_left fun hmem => he ?_)
    obtain ⟨i, -, rfl⟩ := List.mem_map.1 hmem
    rfl
  | .closing thresholdDays now fails =>
    simp only [InboxPoint.exec] at h
    split at h
    · rename_i hnone
      cases h
      exact hcommit hnone
    · rename_i u i hsome
      split at h
      · cases h
        exact habort
      · obtain ⟨db'', hclose, heq⟩ := Option.map_eq_some_iff.1 h
        cases heq
        obtain rfl : u = t := by simpa using List.find?_some hsome
        exact close_spec (List.mem_of_find?_eq_some hsome) hclose hlaw hA

end Outline

theorem Inbox.Settled.lawful {db : Inbox} (h : db.Settled) : db.Lawful where
  insertsMessages r hr hp := by
    rw [h.messages r hr] at hp
    cases hp
  due c hc := by
    rw [h.closings] at hc
    cases hc

theorem Inbox.Settled.clean {db : Inbox} (h : db.Settled) (t : ℕ) : db.Clean t where
  own i := by
    refine Option.eq_none_iff_forall_ne_some.2 fun c hc => ?_
    obtain ⟨r, hr, hown⟩ := Option.bind_eq_some_iff.1 hc
    rw [VersionedRow.ownBy_eq_some, h.conversations r (List.mem_of_getElem? hr)] at hown
    cases hown
  messages r hr p hp := by
    rw [h.messages r hr] at hp
    cases hp
  swept e he := by
    rw [h.swept] at he
    cases he

/-- The proof outline of the sweeps and the calls. -/
theorem inboxOutline :
    inboxSessions.Outline Inbox.Settled NoNewsForSweeps Inbox.Lawful InboxPoint.Assertion where
  start db h := ⟨h.lawful, h.clean⟩
  entry t p db hp _ hA := by
    match p with
    | .call .. | .sweep .. => exact hA
    | .write .. | .closing .. => cases hp
  exec t p db db' q hlaw hA hok h := (exec_spec hlaw hA hok h).2
  stable t p db db' q hlaw hA hok h u r hu hr :=
    hr.of_beside hu (exec_spec hlaw hA hok h).1

/-- **Nobody who waits is closed off.** In every run of sweeps, messages, handovers and status
changes in which no transaction commits news of a conversation between a sweep's read and its
update, each conversation that was closed was open, not flagged, inactive and answered by us in the
state that the update acted on. -/
theorem closes_only_due {w : Sessions.World Inbox InboxPoint}
    (h : inboxSessions.Reaches Inbox.Settled NoNewsForSweeps w) :
    ∀ c ∈ w.store.closings, c.Due :=
  (Sessions.reaches_outline inboxOutline h).1.due

/-- A conversation with an answer of ours, and nothing after it. -/
def answeredInbox : Inbox where
  conversations := [⟨some
    { conv := { id := "ccv_1", channelId := "chn_1", contactId := "cct_1", lastMessageAt := some 0 }
      endUserId := some "eu_1" }, none⟩]
  messages := [⟨some ⟨0, .agent, false, 0⟩, none⟩]

/-- Three days later. -/
def thirdDay : Instant := 3 * 86400000

theorem settled_answeredInbox : answeredInbox.Settled where
  conversations := by simp [answeredInbox]
  messages := by simp [answeredInbox]
  swept := rfl
  closings := rfl

/-- A note of our own is written between the sweep's read and its update. -/
def sweepBesideNote : List (Sessions.Move InboxPoint) :=
  [.call 1 (.sweep 2 thirdDay none), .exec 1,
    .call 2 (.call (.sendMessage 0 .agent true false none thirdDay) none),
    .exec 2, .exec 2, .exec 2, .exec 2, .exec 1, .exec 1]

theorem closes_only_due_sample :
    ∃ w, inboxSessions.Reaches Inbox.Settled NoNewsForSweeps w ∧
      w.store.closings.map (·.place) = [0] ∧ ∀ c ∈ w.store.closings, c.Due := by
  obtain ⟨w, hw, hplaces⟩ := inboxSessions.exists_reaches Inbox.Settled NoNewsForSweeps
    settled_answeredInbox sweepBesideNote
    (f := fun w => w.store.closings.map (·.place)) (v := [0]) (by decide +kernel)
  exact ⟨w, hw, hplaces, closes_only_due hw⟩

/-- The customer writes between the sweep's read and its update. -/
def sweepBesideCustomer : List (Sessions.Move InboxPoint) :=
  [.call 1 (.sweep 2 thirdDay none), .exec 1,
    .call 2 (.call (.sendMessage 0 .endUser false false none thirdDay) none),
    .exec 2, .exec 2, .exec 2, .exec 2, .exec 2, .exec 1, .exec 1]

/-- **A waiting customer is closed off**: the conversation is closed in a state in which its last
message is the customer's. -/
theorem closes_waiting_customer :
    ∃ w, inboxSessions.machine.run (.idle answeredInbox) sweepBesideCustomer = some w ∧
      ¬ ∀ c ∈ w.store.closings, c.Due := by
  have hrun : (inboxSessions.machine.run (.idle answeredInbox) sweepBesideCustomer).map
      (fun w => decide (∀ c ∈ w.store.closings, c.Due)) = some false := by decide +kernel
  obtain ⟨w, hw, hdue⟩ := Option.map_eq_some_iff.1 hrun
  exact ⟨w, hw, of_decide_eq_false hdue⟩

end Munin
