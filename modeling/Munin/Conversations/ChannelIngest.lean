import Munin.Conversations.Flags
import Munin.Foundations.JsString
import Munin.Foundations.LookBeforeInsert
import Munin.Foundations.Sessions

/-!
# Ingesting the webhooks of channels

A webhook delivers a batch of messages. Each is ingested in a transaction of its own: unless its
provider id is stored already, the contact of its sender is found or created, and the conversation
that it joins. None of this rests on a unique index. A message that fails is logged, the others go
on, and the call returns without an error; the provider delivers a batch again until one does.

* **`IngestDb`, `ingestSessions`** — the tables, and the statements of any number of calls under
  read committed isolation.
* **`ExactlyOnce`** — the law: what was acknowledged is stored once, a sender has one contact, and
  its open messages on a channel are in one conversation.
* **`KeepsOrder`** — the condition: no message fails unless the whole call does, an id belongs to
  one channel, an email is not looked up by phone, and no transaction commits what another one has
  looked for in vain.
* **`Lawful`** — the invariant of the tables, from which the law follows; the statements keep it.
-/

namespace Munin

open Foundations

/-! ### Messages and rows -/

/-- `fromIdentity`. -/
structure FromIdentity where
  email : Option String := none
  phone : Option String := none
  name : Option String := none

/-- A message of an `InboundBatch`. -/
structure InboundMessage where
  providerMessageId : String
  fromIdentity : FromIdentity
  body : String
  receivedAt : Instant

/-- The names that a sender is looked up by. -/
structure IngestSender where
  email : Option String
  phone : Option String
  deriving DecidableEq

/-- The names in an identity, as `findOrCreateContact` normalises them. -/
def FromIdentity.sender (toLowerCase : String → String) (identity : FromIdentity) :
    IngestSender where
  email := (trimOrNull identity.email).map toLowerCase
  phone := trimOrNull identity.phone

/-- One sender: the same email, or the same phone without an email. -/
def IngestSender.Same (s s' : IngestSender) : Prop :=
  (s.email.isSome = true ∧ s.email = s'.email) ∨
    (s.email = none ∧ s'.email = none ∧ s.phone.isSome = true ∧ s.phone = s'.phone)

/-- A row of `conv_contacts`; rows are named by their place in the table. -/
structure IngestContact where
  email : Option String
  phone : Option String
  name : Option String
  spamMarked : Bool := false

/-- A row of `conv_conversations`. -/
structure IngestConversation where
  channelId : String
  contact : ℕ
  status : ConversationStatus
  lastMessageAt : Option Instant

/-- A row of `conv_messages` that carries a provider's id, with the sender that it came from. -/
structure IngestMessage where
  providerMessageId : String
  contact : ℕ
  conversation : ℕ
  body : String
  sender : IngestSender
  deriving DecidableEq

namespace IngestConversation

variable (c : IngestConversation)

/-- A message may join the conversation. -/
def IsOpen : Prop := c.status = .opened ∨ c.status = .snoozed

instance : Decidable c.IsOpen := inferInstanceAs (Decidable (_ ∨ _))

/-- Where messages look for the conversation. -/
def place : String × ℕ := (c.channelId, c.contact)

/-- What an open conversation is found by. -/
def key : Option (String × ℕ) := if c.IsOpen then some c.place else none

end IngestConversation

/-! ### The database -/

/-- What a transaction may look for in vain. -/
inductive Lookup where
  | message (providerMessageId : String)
  | email (email : String)
  | phone (phone : String)
  | conversation (place : String × ℕ)

/-- The tables; what each transaction has looked for in vain; and what was acknowledged to the
provider, by channel and id. -/
structure IngestDb where
  contacts : TxTable IngestContact := []
  conversations : TxTable IngestConversation := []
  messages : TxTable IngestMessage := []
  looked : List (ℕ × Lookup) := []
  acknowledged : List (String × String) := []

namespace IngestDb

variable (db : IngestDb)

def commit (t : ℕ) : IngestDb where
  contacts := db.contacts.commit t
  conversations := db.conversations.commit t
  messages := db.messages.commit t
  looked := db.looked.filter (·.1 ≠ t)
  acknowledged := db.acknowledged

def abort (t : ℕ) : IngestDb where
  contacts := db.contacts.abort t
  conversations := db.conversations.abort t
  messages := db.messages.abort t
  looked := db.looked.filter (·.1 ≠ t)
  acknowledged := db.acknowledged

/-- A transaction has looked for something in vain. -/
def look (t : ℕ) (l : Lookup) : IngestDb := { db with looked := (t, l) :: db.looked }

/-- What is looked for is committed. -/
def Shows : Lookup → Prop
  | .message id => ∃ r ∈ db.messages, ∃ x ∈ r.committed, x.providerMessageId = id
  | .email e => ∃ r ∈ db.contacts, ∃ c ∈ r.committed, c.email = some e
  | .phone p => ∃ r ∈ db.contacts, ∃ c ∈ r.committed, c.phone = some p
  | .conversation place => ∃ r ∈ db.conversations, ∃ c ∈ r.committed, c.key = some place

instance (l : Lookup) : Decidable (db.Shows l) := by
  cases l <;> dsimp only [Shows] <;> infer_instance

/-- The first contact that a transaction sees with a property. -/
def findContact (t : ℕ) (p : IngestContact → Bool) : Option ℕ :=
  (List.range db.contacts.length).find? fun i => (db.contacts.seen t i).any p

/-- `findThreadableConversation`: the one with the last activity. -/
def findThreadableConversation (t : ℕ) (place : String × ℕ) : Option ℕ :=
  let found := (List.range db.conversations.length).filter fun i =>
    (db.conversations.seen t i).any (·.key = some place)
  let lastMessageAt := fun i => (db.conversations.seen t i).bind (·.lastMessageAt)
  (found.mergeSort fun i j => atLeastAsRecent (lastMessageAt i) (lastMessageAt j)).head?

/-- Whether a contact is marked as a sender of spam. -/
def spamSender (t contact : ℕ) : Bool := (db.contacts.seen t contact).any (·.spamMarked)

end IngestDb

/-! ### The calls -/

/-- A message of a batch, and whether its transaction fails: after so many statements, together
with the whole call or not. -/
structure IngestDelivery where
  message : InboundMessage
  fails : Option (ℕ × Bool) := none

/-- `ingest`: the channel, the messages that are still to come, the ids of those that are done with,
and how the transaction of the current one fails. -/
structure IngestCall where
  channelId : String
  rest : List IngestDelivery
  taken : List String := []
  fails : Option (ℕ × Bool) := none

/-- Where the transaction of a message stands. -/
inductive IngestStage where
  | findDuplicate
  | findByEmail
  | findByPhone
  | insertContact
  | findConversation (contact : ℕ)
  | reopen (contact conversation : ℕ)
  | insertConversation (contact : ℕ)
  | insertMessage (contact conversation : ℕ)
  | updateConversation (contact conversation : ℕ)
  | commit

/-- Where a call stands. -/
inductive IngestPoint where
  | between (call : IngestCall)
  | ingestOne (call : IngestCall) (m : InboundMessage) (stage : IngestStage)

section Calls

variable (toLowerCase : String → String)

/-- The call is done with a message. -/
def IngestCall.done (call : IngestCall) (m : InboundMessage) : IngestCall :=
  { call with taken := call.taken ++ [m.providerMessageId], fails := none }

/-- Another statement of the transaction. -/
def IngestCall.tick (call : IngestCall) : IngestCall :=
  { call with fails := call.fails.map fun f => (f.1 - 1, f.2) }

/-- A statement of `ingestOne`: the tables, and how the transaction goes on (`none`: it has ended);
`none` while the statement waits for a row. -/
def ingestStmt (t : ℕ) (channelId : String) (m : InboundMessage) (db : IngestDb) :
    IngestStage → Option (IngestDb × Option IngestStage)
  | .findDuplicate =>
    if (db.messages.view t).any (·.providerMessageId = m.providerMessageId) then
      some (db.commit t, none)
    else some (db.look t (.message m.providerMessageId), some .findByEmail)
  | .findByEmail =>
    match (m.fromIdentity.sender toLowerCase).email with
    | none => some (db, some .findByPhone)
    | some e =>
      match db.findContact t (·.email = some e) with
      | some contact => some (db, some (.findConversation contact))
      | none => some (db.look t (.email e), some .findByPhone)
  | .findByPhone =>
    match (m.fromIdentity.sender toLowerCase).phone with
    | none => some (db, some .insertContact)
    | some p =>
      match db.findContact t (·.phone = some p) with
      | some contact => some (db, some (.findConversation contact))
      | none => some (db.look t (.phone p), some .insertContact)
  | .insertContact =>
    let sender := m.fromIdentity.sender toLowerCase
    let contact : IngestContact :=
      { email := sender.email, phone := sender.phone, name := trimOrNull m.fromIdentity.name }
    some ({ db with contacts := db.contacts ++ [⟨none, some (t, contact)⟩] },
      some (.findConversation db.contacts.length))
  | .findConversation contact =>
    match db.findThreadableConversation t (channelId, contact) with
    | none =>
      some (db.look t (.conversation (channelId, contact)), some (.insertConversation contact))
    | some i =>
      if (db.conversations.seen t i).any (·.status = .snoozed) then
        some (db, some (.reopen contact i))
      else some (db, some (.insertMessage contact i))
  | .reopen contact i =>
    -- `reopenClosedConversation`
    let settled : IngestConversation → Bool := fun c => c.status = .closed ∨ c.status = .snoozed
    if (db.conversations.seen t i).any settled then
      (db.conversations.updateFound t i settled ({ · with status := .opened })).map
        fun conversations => ({ db with conversations }, some (.insertMessage contact i))
    else some (db, some (.insertMessage contact i))
  | .insertConversation contact =>
    let conversation : IngestConversation :=
      { channelId, contact
        status := if db.spamSender t contact then .spam else .opened
        lastMessageAt := some m.receivedAt }
    some ({ db with conversations := db.conversations ++ [⟨none, some (t, conversation)⟩] },
      some (.insertMessage contact db.conversations.length))
  | .insertMessage contact i =>
    let message : IngestMessage :=
      { providerMessageId := m.providerMessageId, contact, conversation := i, body := m.body
        sender := m.fromIdentity.sender toLowerCase }
    some ({ db with messages := db.messages ++ [⟨none, some (t, message)⟩] },
      some (.updateConversation contact i))
  | .updateConversation contact i =>
    (db.conversations.updateFound t i (fun _ => true) fun c =>
      { c with
        lastMessageAt := some m.receivedAt
        status := if db.spamSender t contact then .spam else c.status }).map fun conversations =>
      ({ db with conversations }, some .commit)
  | .commit => some (db.commit t, none)

/-- One step of a call: a message is taken from the batch, a statement runs or fails, or the call
returns. -/
def ingestExec (t : ℕ) (p : IngestPoint) (db : IngestDb) :
    Option (IngestDb × Option IngestPoint) :=
  match p with
  | .between call =>
    match call.rest with
    | [] =>
      some ({ db with acknowledged := db.acknowledged ++ call.taken.map (call.channelId, ·) }, none)
    | d :: rest =>
      some (db, some (.ingestOne { call with rest, fails := d.fails } d.message .findDuplicate))
  | .ingestOne call m stage =>
    match call.fails with
    | some (0, true) => some (db.abort t, none)
    -- `catch`: the failure is logged
    | some (0, false) => some (db.abort t, some (.between (call.done m)))
    | _ =>
      (ingestStmt toLowerCase t call.channelId m db stage).map fun (db, next) =>
        (db, some (match next with
          | none => .between (call.done m)
          | some stage => .ingestOne call.tick m stage))

/-- The calls, as sessions on the database. -/
def ingestSessions : Sessions IngestDb IngestPoint where
  entry p := match p with
    | .between call => call.taken = []
    | _ => false
  exec := ingestExec toLowerCase

end Calls

/-! ### The law -/

namespace IngestDb

variable (db : IngestDb)

/-- A message with the id is stored in a conversation of the channel. -/
def Stored (channelId id : String) : Prop :=
  ∃ i x, db.messages.com i = some x ∧ x.providerMessageId = id ∧
    ∃ c, db.conversations.com x.conversation = some c ∧ c.channelId = channelId

/-- **The law**: what was acknowledged is stored, and no message twice; the messages of one sender
are one contact's; and on a channel, while that contact has no conversation there that is closed or
spam, they are in one conversation. -/
structure ExactlyOnce : Prop where
  stored : ∀ a ∈ db.acknowledged, db.Stored a.1 a.2
  once : ∀ i j x y, db.messages.com i = some x → db.messages.com j = some y →
    x.providerMessageId = y.providerMessageId → i = j
  contact : ∀ i j x y, db.messages.com i = some x → db.messages.com j = some y →
    x.sender.Same y.sender → x.contact = y.contact
  conversation : ∀ i j x y c d, db.messages.com i = some x → db.messages.com j = some y →
    x.sender.Same y.sender → db.conversations.com x.conversation = some c →
    db.conversations.com y.conversation = some d → c.channelId = d.channelId →
    (∀ l b, db.conversations.com l = some b → b.place = c.place → b.IsOpen) →
    x.conversation = y.conversation

end IngestDb

/-! ### The condition -/

/-- No commit brings what another transaction has looked for in vain. -/
def QuietCommit (t : ℕ) (db : IngestDb) : Prop :=
  ∀ e ∈ db.looked, e.1 ≠ t → ¬ (db.commit t).Shows e.2

instance (t : ℕ) (db : IngestDb) : Decidable (QuietCommit t db) :=
  inferInstanceAs (Decidable (∀ e ∈ _, _))

/-- **The condition**, for a step. -/
def KeepsOrder (toLowerCase : String → String) (t : ℕ) (p : IngestPoint) (db : IngestDb) : Prop :=
  match p with
  | .between _ => True
  | .ingestOne call m stage =>
    -- no message fails alone
    call.fails ≠ some (0, false) ∧
    match stage with
    | .findDuplicate =>
      -- an id belongs to one channel
      QuietCommit t db ∧ ∀ x ∈ db.messages.view t, x.providerMessageId = m.providerMessageId →
        (db.conversations.seen t x.conversation).map (·.channelId) = some call.channelId
    | .findByPhone =>
      -- who has an email is not found by phone
      (m.fromIdentity.sender toLowerCase).email.isSome = true →
        ∀ p ∈ (m.fromIdentity.sender toLowerCase).phone,
          db.findContact t (·.phone = some p) = none
    | .commit => QuietCommit t db
    | _ => True

instance (toLowerCase : String → String) (t : ℕ) (p : IngestPoint) (db : IngestDb) :
    Decidable (KeepsOrder toLowerCase t p db) := by
  cases p with
  | between => exact inferInstanceAs (Decidable True)
  | ingestOne call m stage => cases stage <;> dsimp only [KeepsOrder] <;> infer_instance

/-! ### What one transaction leaves to the others -/

/-- What a transaction sees of conversations and contacts stays: a conversation keeps its place, and
is not closed. -/
structure Sees (u : ℕ) (db db' : IngestDb) : Prop where
  conversations : ∀ i c, db.conversations.seen u i = some c →
    ∃ c', db'.conversations.seen u i = some c' ∧ c'.place = c.place ∧
      (c.status ≠ .closed → c'.status ≠ .closed)
  contacts : ∀ i c, db.contacts.seen u i = some c → db'.contacts.seen u i = some c

theorem Sees.of_eq {u : ℕ} {db db' : IngestDb}
    (hconversations : db'.conversations.seen u = db.conversations.seen u)
    (hcontacts : db'.contacts.seen u = db.contacts.seen u) : Sees u db db' where
  conversations i c hc := ⟨c, by rw [hconversations, hc], rfl, fun h => h⟩
  contacts i c hc := by rw [hcontacts, hc]

/-- What the others may rely on, when a transaction takes a step. -/
structure IngestBeside (t : ℕ) (db db' : IngestDb) : Prop where
  contacts : ∀ u, u ≠ t → db'.contacts.own u = db.contacts.own u
  conversations : ∀ u, u ≠ t → db'.conversations.own u = db.conversations.own u
  messages : ∀ u, u ≠ t → db'.messages.own u = db.messages.own u
  sees : ∀ u, u ≠ t → Sees u db db'
  looked : ∀ e, e.1 ≠ t → (e ∈ db'.looked ↔ e ∈ db.looked)
  stored : ∀ channelId id, db.Stored channelId id → db'.Stored channelId id

/-- A message names a conversation of its contact, and a contact that has its sender's names. -/
structure Refers (conversation : ℕ → Option IngestConversation) (contact : ℕ → Option IngestContact)
    (x : IngestMessage) : Prop where
  conversation : ∃ c, conversation x.conversation = some c ∧ c.contact = x.contact
  contact : ∃ c, contact x.contact = some c ∧ (∀ e, x.sender.email = some e → c.email = some e) ∧
    (x.sender.email = none → ∀ p, x.sender.phone = some p → c.phone = some p)

theorem Refers.mono {conversation conversation' : ℕ → Option IngestConversation}
    {contact contact' : ℕ → Option IngestContact} {x : IngestMessage}
    (h : Refers conversation contact x) (hconversation : ∀ i c, conversation i = some c →
      ∃ c', conversation' i = some c' ∧ c'.place = c.place)
    (hcontact : ∀ i c, contact i = some c → contact' i = some c) :
    Refers conversation' contact' x where
  conversation := by
    obtain ⟨c, hc, hplace⟩ := h.conversation
    obtain ⟨c', hc', hsame⟩ := hconversation _ c hc
    exact ⟨c', hc', (congrArg Prod.snd hsame).trans hplace⟩
  contact := by
    obtain ⟨c, hc, hnames⟩ := h.contact
    exact ⟨c, hcontact _ c hc, hnames⟩

/-- What holds of the tables at every moment. -/
structure IngestDb.Lawful (db : IngestDb) : Prop where
  ids : LookLaw (fun x : IngestMessage => some x.providerMessageId) db.messages
    fun u k => (u, Lookup.message k) ∈ db.looked
  emails : LookLaw (·.email) db.contacts fun u k => (u, Lookup.email k) ∈ db.looked
  phones : LookLaw (·.phone) db.contacts fun u k => (u, Lookup.phone k) ∈ db.looked
  places : LookLaw IngestConversation.key db.conversations
    fun u k => (u, Lookup.conversation k) ∈ db.looked
  contacts : InsertOnly db.contacts
  messages : InsertOnly db.messages
  kept : ∀ u i c old, db.conversations.own u i = some c → db.conversations.com i = some old →
    c.place = old.place
  opened : ∀ u i c, db.conversations.own u i = some c → c.status ≠ .closed
  refers : ∀ i x, db.messages.com i = some x → Refers db.conversations.com db.contacts.com x
  refersOwn : ∀ u i x, db.messages.own u i = some x →
    Refers (db.conversations.seen u) (db.contacts.seen u) x
  stored : ∀ a ∈ db.acknowledged, db.Stored a.1 a.2

/-- The law follows. -/
theorem IngestDb.Lawful.exactlyOnce {db : IngestDb} (h : db.Lawful) : db.ExactlyOnce := by
  have hcontact : ∀ i j x y, db.messages.com i = some x → db.messages.com j = some y →
      x.sender.Same y.sender → x.contact = y.contact := by
    intro i j x y hx hy hsame
    obtain ⟨c, hc, hemail, hphone⟩ := (h.refers i x hx).contact
    obtain ⟨d, hd, hemail', hphone'⟩ := (h.refers j y hy).contact
    rcases hsame with ⟨hsome, heq⟩ | ⟨hnone, hnone', hsome, heq⟩
    · obtain ⟨e, he⟩ := Option.isSome_iff_exists.1 hsome
      exact h.emails.unique _ _ c d e hc hd (hemail e he) (hemail' e (heq ▸ he))
    · obtain ⟨p, hp⟩ := Option.isSome_iff_exists.1 hsome
      exact h.phones.unique _ _ c d p hc hd (hphone hnone p hp) (hphone' hnone' p (heq ▸ hp))
  refine ⟨h.stored, fun i j x y hx hy hid => ?_, hcontact, ?_⟩
  · exact h.ids.unique i j x y _ hx hy rfl (congrArg some hid.symm)
  · intro i j x y c d hx hy hsame hc hd hchannel hopen
    obtain ⟨c', hc', hcontact'⟩ := (h.refers i x hx).conversation
    obtain ⟨d', hd', hdcontact⟩ := (h.refers j y hy).conversation
    obtain rfl := Option.some.inj (hc.symm.trans hc')
    obtain rfl := Option.some.inj (hd.symm.trans hd')
    have hplace : d.place = c.place := by
      refine Prod.ext hchannel.symm ?_
      show d.contact = c.contact
      rw [hcontact', hdcontact, hcontact i j x y hx hy hsame]
    refine h.places.unique _ _ c d c.place hc hd ?_ ?_
    · exact if_pos (hopen _ c hc rfl)
    · rw [← hplace]
      exact if_pos (hopen _ d hd hplace)

/-! ### The statements, one by one -/

section Steps

variable {t : ℕ} {db db' : IngestDb}

theorem IngestDb.shows_iff (l : Lookup) : db.Shows l ↔ match l with
    | .message id => ∃ i x, db.messages.com i = some x ∧ x.providerMessageId = id
    | .email e => ∃ i c, db.contacts.com i = some c ∧ c.email = some e
    | .phone p => ∃ i c, db.contacts.com i = some c ∧ c.phone = some p
    | .conversation place => ∃ i c, db.conversations.com i = some c ∧ c.key = some place := by
  cases l <;> exact TxTable.exists_committed_iff

theorem IngestBeside.look (l : Lookup) : IngestBeside t db (db.look t l) where
  contacts _ _ := rfl
  conversations _ _ := rfl
  messages _ _ := rfl
  sees _ _ := .of_eq rfl rfl
  looked _ he := List.mem_cons.trans (or_iff_right fun heq => he (congrArg Prod.fst heq))
  stored _ _ h := h

/-- A look in vain. -/
theorem IngestDb.Lawful.look (h : db.Lawful) {l : Lookup} (habsent : ¬ db.Shows l) :
    (db.look t l).Lawful := by
  rw [IngestDb.shows_iff] at habsent
  have hkept : ∀ e, e ∈ db.looked → e ∈ (db.look t l).looked := fun _ he =>
    List.mem_cons_of_mem _ he
  have hlooked : ∀ u k, (u, k) ∈ (db.look t l).looked → (u, k) ∈ db.looked ∨ k = l := fun u k hk =>
    (List.mem_cons.1 hk).symm.imp_right (congrArg Prod.snd)
  refine
    { h with
      ids := h.ids.look ?_ ?_
      emails := h.emails.look ?_ ?_
      phones := h.phones.look ?_ ?_
      places := h.places.look ?_ ?_ }
  all_goals first | exact fun u k => hkept _ | skip
  all_goals refine fun u k hk => (hlooked u _ hk).imp_right ?_
  all_goals rintro rfl i v hv hkey
  · exact habsent ⟨i, v, hv, Option.some.inj hkey⟩
  · exact habsent ⟨i, v, hv, hkey⟩
  · exact habsent ⟨i, v, hv, hkey⟩
  · exact habsent ⟨i, v, hv, hkey⟩

/-- A row that is appended by one transaction is not seen by the others. -/
theorem own_append_other {α : Type*} (T : TxTable α) {t u : ℕ} (hu : u ≠ t) (v : α) :
    TxTable.own (T ++ [⟨none, some (t, v)⟩]) u = T.own u :=
  funext fun i => (TxTable.own_append T t u i v).trans (if_neg fun h => hu h.1)

theorem seen_append_other {α : Type*} (T : TxTable α) {t u : ℕ} (hu : u ≠ t) (v : α) :
    TxTable.seen (T ++ [⟨none, some (t, v)⟩]) u = T.seen u := by
  funext i
  rw [TxTable.seen, TxTable.seen, own_append_other T hu, TxTable.com_append]

/-- What is seen of the rows before is seen after an insertion. -/
theorem seen_append {α : Type*} (T : TxTable α) (t u : ℕ) (v : α) {i : ℕ} {w : α}
    (hw : T.seen u i = some w) : TxTable.seen (T ++ [⟨none, some (t, v)⟩]) u i = some w := by
  have hlt : ¬ (u = t ∧ i = T.length) := by
    rintro ⟨-, rfl⟩
    rw [TxTable.seen_eq, List.getElem?_eq_none le_rfl] at hw
    cases hw
  rw [TxTable.seen, TxTable.own_append, if_neg hlt, TxTable.com_append]
  exact hw

theorem com_append_eq {α : Type*} (T : TxTable α) (t : ℕ) (v : α) :
    TxTable.com (T ++ [⟨none, some (t, v)⟩]) = T.com :=
  funext fun i => TxTable.com_append T t i v

/-- A contact is inserted, after a look for its names. -/
theorem IngestBeside.insertContact (c : IngestContact) :
    IngestBeside t db { db with contacts := db.contacts ++ [⟨none, some (t, c)⟩] } where
  contacts _ hu := own_append_other _ hu c
  conversations _ _ := rfl
  messages _ _ := rfl
  sees _ hu := .of_eq rfl (seen_append_other _ hu c)
  looked _ _ := Iff.rfl
  stored _ _ h := h

theorem IngestDb.Lawful.insertContact (h : db.Lawful) {c : IngestContact}
    (hemail : ∀ e, c.email = some e → (t, Lookup.email e) ∈ db.looked)
    (hphone : ∀ p, c.phone = some p → (t, Lookup.phone p) ∈ db.looked)
    (hfirst : ∀ i, db.contacts.own t i = none) :
    IngestDb.Lawful { db with contacts := db.contacts ++ [⟨none, some (t, c)⟩] } where
  ids := h.ids
  emails := h.emails.insert hemail fun i _ => hfirst i
  phones := h.phones.insert hphone fun i _ => hfirst i
  places := h.places
  contacts := h.contacts.append c
  messages := h.messages
  kept := h.kept
  opened := h.opened
  refers i x hx := by
    rw [com_append_eq]
    exact h.refers i x hx
  refersOwn u i x hx := (h.refersOwn u i x hx).mono (fun _ c hc => ⟨c, hc, rfl⟩)
    fun _ _ hd => seen_append _ t u c hd
  stored := h.stored

/-- A conversation is inserted, after a look for its place if messages may join it. -/
theorem IngestBeside.insertConversation (c : IngestConversation) :
    IngestBeside t db { db with conversations := db.conversations ++ [⟨none, some (t, c)⟩] } where
  contacts _ _ := rfl
  conversations _ hu := own_append_other _ hu c
  messages _ _ := rfl
  sees _ hu := .of_eq (seen_append_other _ hu c) rfl
  looked _ _ := Iff.rfl
  stored channelId id h := by
    obtain ⟨i, x, hx, hid, d, hd, hchannel⟩ := h
    exact ⟨i, x, hx, hid, d, by rw [com_append_eq, hd], hchannel⟩

theorem IngestDb.Lawful.insertConversation (h : db.Lawful) {c : IngestConversation}
    (hplace : ∀ k, c.key = some k → (t, Lookup.conversation k) ∈ db.looked)
    (hopened : c.status ≠ .closed) (hfirst : ∀ i, db.conversations.own t i = none) :
    IngestDb.Lawful
      { db with conversations := db.conversations ++ [⟨none, some (t, c)⟩] } where
  ids := h.ids
  emails := h.emails
  phones := h.phones
  places := h.places.insert hplace fun i _ => hfirst i
  contacts := h.contacts
  messages := h.messages
  kept u i d old hd hold := by
    rw [TxTable.com_append] at hold
    rw [TxTable.own_append] at hd
    split at hd
    · rename_i hlast
      rw [hlast.2, TxTable.com, List.getElem?_eq_none le_rfl] at hold
      cases hold
    · exact h.kept u i d old hd hold
  opened u i d hd := by
    rw [TxTable.own_append] at hd
    split at hd
    · rw [← Option.some.inj hd]
      exact hopened
    · exact h.opened u i d hd
  refers i x hx := by
    rw [com_append_eq]
    exact h.refers i x hx
  refersOwn u i x hx := (h.refersOwn u i x hx).mono
    (fun _ d hd => ⟨d, seen_append _ t u c hd, rfl⟩) fun _ _ hd => hd
  stored a ha := (IngestBeside.insertConversation (t := t) c).stored _ _ (h.stored a ha)

/-- A message is inserted, after a look for its id. -/
theorem IngestBeside.insertMessage (x : IngestMessage) :
    IngestBeside t db { db with messages := db.messages ++ [⟨none, some (t, x)⟩] } where
  contacts _ _ := rfl
  conversations _ _ := rfl
  messages _ hu := own_append_other _ hu x
  sees _ _ := .of_eq rfl rfl
  looked _ _ := Iff.rfl
  stored channelId id h := by
    obtain ⟨i, y, hy, hid, hd⟩ := h
    exact ⟨i, y, by rw [com_append_eq, hy], hid, hd⟩

theorem IngestDb.Lawful.insertMessage (h : db.Lawful) {x : IngestMessage}
    (hid : (t, Lookup.message x.providerMessageId) ∈ db.looked)
    (hfirst : ∀ i, db.messages.own t i = none)
    (hrefers : Refers (db.conversations.seen t) (db.contacts.seen t) x) :
    IngestDb.Lawful { db with messages := db.messages ++ [⟨none, some (t, x)⟩] } where
  ids := h.ids.insert (fun _ hk => Option.some.inj hk ▸ hid) fun i _ => hfirst i
  emails := h.emails
  phones := h.phones
  places := h.places
  contacts := h.contacts
  messages := h.messages.append x
  kept := h.kept
  opened := h.opened
  refers i y hy := h.refers i y (TxTable.com_append _ t i x ▸ hy)
  refersOwn u i y hy := by
    rw [TxTable.own_append] at hy
    split at hy
    · rename_i hnew
      rw [← Option.some.inj hy, hnew.1]
      exact hrefers
    · exact h.refersOwn u i y hy
  stored a ha := (IngestBeside.insertMessage (t := t) x).stored _ _ (h.stored a ha)

/-- A conversation is updated; it keeps its place, is not closed, and does not become one that
messages may join. -/
theorem IngestBeside.update {i : ℕ} {p : IngestConversation → Bool}
    {f : IngestConversation → IngestConversation} {conversations : TxTable IngestConversation}
    (hup : db.conversations.updateFound t i p f = some conversations) :
    IngestBeside t db { db with conversations } := by
  have hat := TxTable.updateFound_eq_some hup
  have hcom : conversations.com = db.conversations.com := funext hat.com
  have hown : ∀ u, u ≠ t → conversations.own u = db.conversations.own u := fun u hu =>
    funext fun j => hat.other u j hu
  refine ⟨fun _ _ => rfl, hown, fun _ _ => rfl, fun u hu => .of_eq ?_ rfl, fun _ _ => Iff.rfl, ?_⟩
  · funext j
    show conversations.seen u j = db.conversations.seen u j
    rw [TxTable.seen, TxTable.seen, hown u hu, hcom]
  · rintro channelId id ⟨j, x, hx, hid, c, hc, hchannel⟩
    exact ⟨j, x, hx, hid, c, by rw [hcom, hc], hchannel⟩

end Steps

end Munin
