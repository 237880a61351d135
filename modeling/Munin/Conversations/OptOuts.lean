import Munin.Conversations.ChannelIngest
import Munin.Foundations.KeyedList
import Mathlib.Data.List.DropRight

/-!
# Opt-outs by SMS

Who answers an SMS with STOP is not to be contacted again. The ingestion of the message looks for a
contact of the CRM with the sender's number, and marks it. A number is not unique in the CRM.

* **`isOptOutKeyword`** — which messages are opt-outs.
* **`ingestOne`** — the ingestion of a message, which marks the contact by
  `suppressContactByPhone`; `SmsDelivery` also says what the database
  answers.
* **`HonoursOptOut`** — the law: every contact with the number is marked, the others are as they
  were, and another opt-out changes nothing.
* **`OneToSuppress`** — the condition: no contact but the one that the query returns is still to be
  marked, and that one is not unsubscribed without being marked.
-/

namespace Munin

open Foundations

/-- What a query with `LIMIT 1` and without an order may return: any of the rows. -/
def limitOne {α : Type*} (row : ℕ) (rows : List α) : Option α := rows[row % rows.length]?

theorem mem_of_limitOne {α : Type*} {row : ℕ} {rows : List α} {a : α}
    (h : limitOne row rows = some a) : a ∈ rows := List.mem_of_getElem? h

theorem limitOne_eq_none {α : Type*} {row : ℕ} {rows : List α} :
    limitOne row rows = none ↔ rows = [] := by
  rw [limitOne, List.getElem?_eq_none_iff]
  constructor
  · intro h
    by_contra hne
    exact absurd (Nat.mod_lt row (List.length_pos_iff.2 hne)) h.not_gt
  · rintro rfl
    exact Nat.zero_le _

/-! ### Keywords -/

/-- `OPT_OUT_KEYWORDS`. -/
def optOutKeywords : List String :=
  ["stop", "stopp", "slutt", "stopall", "unsubscribe", "end", "quit", "cancel", "avmeld"]

def isOptOutKeyword (toLowerCase : String → String) (body : String) : Bool :=
  let normalised := (toLowerCase (jsTrim body)).toList.rdropWhile
    (['.', '!', '?', ',', ';', ':'].contains ·)
  String.ofList normalised ∈ optOutKeywords

/-! ### Rows -/

/-- A row of `conv_contacts`. -/
structure ConvContact where
  id : String
  orgId : String
  email : Option String
  phone : Option String
  name : Option String
  spamMarked : Bool := false

/-- A row of `conv_messages` that carries a provider's id. -/
structure ConvMessage where
  orgId : String
  providerMessageId : String
  conversationId : String
  authorId : String
  body : String

/-- A row of `crm_contacts`, as far as consent goes. -/
structure CrmContact where
  id : String
  orgId : String
  phone : Option String
  unsubscribedAt : Option Instant := none
  doNotContact : Bool := false
  updatedAt : Instant
  deriving DecidableEq

namespace CrmContact

variable (c : CrmContact)

def HasPhone (orgId phone : String) : Prop := c.orgId = orgId ∧ c.phone = some phone

instance (orgId phone : String) : Decidable (c.HasPhone orgId phone) :=
  inferInstanceAs (Decidable (_ ∧ _))

/-- The contact is unsubscribed, and marked. -/
def Suppressed : Prop := c.unsubscribedAt.isSome = true ∧ c.doNotContact = true

instance : Decidable c.Suppressed := inferInstanceAs (Decidable (_ ∧ _))

def suppress (now : Instant) : CrmContact :=
  { c with unsubscribedAt := some now, doNotContact := true, updatedAt := now }

/-- The primary key. -/
def key : Option String := some c.id

theorem suppressed_suppress (now : Instant) : (c.suppress now).Suppressed := ⟨rfl, rfl⟩

end CrmContact

/-- A row of `crm_activities`: the note of an opt-out. -/
structure OptOutNote where
  orgId : String
  contactId : String
  channelId : String

/-- The tables of the CRM, with the primary key of the contacts. -/
structure CrmTables where
  contacts : List CrmContact
  activities : List OptOutNote := []
  unique : UniqueKeys CrmContact.key contacts

/-- The update of the contact with an id, and its note. -/
def CrmTables.suppress (crm : CrmTables) (id : String) (now : Instant) (note : OptOutNote) :
    CrmTables where
  contacts := crm.contacts.map fun c => if c.id = id then c.suppress now else c
  activities := crm.activities ++ [note]
  unique := by
    have hkey : ∀ c : CrmContact, (if c.id = id then c.suppress now else c).key = c.key := by
      intro c
      split_ifs <;> rfl
    rw [UniqueKeys, List.filterMap_map, Function.comp_def]
    simp only [hkey]
    exact crm.unique

/-- The tables. -/
structure OptOutDb where
  contacts : List ConvContact := []
  conversations : List ConvConversation := []
  messages : List ConvMessage := []
  crm : CrmTables

/-! ### Ingestion -/

/-- What is read of a channel. -/
structure SmsChannel where
  id : String
  orgId : String
  type : String
  defaultAgentMode : ConversationAgentMode

/-- A message of a channel, and what the others decide while it is ingested: which row the queries
for a contact return, the conversation found, the ids of new rows, the mode of the topic, and what
redaction leaves of the body. -/
structure SmsDelivery where
  channel : SmsChannel
  message : InboundMessage
  emailRow : ℕ := 0
  phoneRow : ℕ := 0
  crmRow : ℕ := 0
  found : Option String := none
  contactId : String
  conversationId : String
  topicMode : Option ConversationAgentMode := none
  redacted : String
  now : Instant

section Ingestion

variable (toLowerCase : String → String)

/-- The contact, and the contacts with it. -/
def findOrCreateContact (d : SmsDelivery) (contacts : List ConvContact) :
    ConvContact × List ConvContact :=
  let orgId := d.channel.orgId
  let sender := d.message.fromIdentity.sender toLowerCase
  let byEmail := sender.email.bind fun e =>
    limitOne d.emailRow (contacts.filter fun c => c.orgId = orgId ∧ c.email = some e)
  let byPhone := sender.phone.bind fun p =>
    limitOne d.phoneRow (contacts.filter fun c => c.orgId = orgId ∧ c.phone = some p)
  match byEmail <|> byPhone with
  | some contact => (contact, contacts)
  | none =>
    let contact : ConvContact :=
      { id := d.contactId, orgId, email := sender.email, phone := sender.phone
        name := trimOrNull d.message.fromIdentity.name }
    (contact, contacts ++ [contact])

def suppressContactByPhone (orgId : String) (phone : Option String) (channelId : String) (row : ℕ)
    (now : Instant) (crm : CrmTables) : CrmTables :=
  match phone.filter (· ≠ "") with
  | none => crm
  | some phone =>
    match limitOne row (crm.contacts.filter (·.HasPhone orgId phone)) with
    | none => crm
    | some contact =>
      if contact.unsubscribedAt.isSome then crm
      else crm.suppress contact.id now ⟨orgId, contact.id, channelId⟩

/-- The tables after the transaction, and whether the message was ingested; `none` where the
conversation found is not one that the query may return. -/
def ingestOne (d : SmsDelivery) (db : OptOutDb) : Option (OptOutDb × Bool) :=
  let orgId := d.channel.orgId
  let msg := d.message
  if db.messages.any fun r => r.orgId = orgId ∧ r.providerMessageId = msg.providerMessageId then
    some (db, false)
  else
    let (contact, contacts) := findOrCreateContact toLowerCase d db.contacts
    let joined := stepConversations db.conversations
      (.ingest d.channel.id contact.id d.found d.conversationId d.channel.defaultAgentMode
        contact.spamMarked d.topicMode msg.receivedAt d.now)
    joined.map fun conversations =>
      let stored : ConvMessage :=
        { orgId, providerMessageId := msg.providerMessageId
          conversationId := d.found.getD d.conversationId, authorId := contact.id
          body := d.redacted }
      let crm :=
        if d.channel.type = "sms" ∧ isOptOutKeyword toLowerCase msg.body then
          suppressContactByPhone orgId contact.phone d.channel.id d.crmRow d.now db.crm
        else db.crm
      ({ contacts, conversations, messages := db.messages ++ [stored], crm }, true)

/-! ### The law -/

/-- A message is an opt-out by SMS, of a sender whose contact has the number. -/
structure SmsDelivery.OptsOut (orgId phone : String) (d : SmsDelivery) (db : OptOutDb) : Prop where
  org : d.channel.orgId = orgId
  sms : d.channel.type = "sms"
  keyword : isOptOutKeyword toLowerCase d.message.body = true
  sender : (findOrCreateContact toLowerCase d db.contacts).1.phone = some phone

/-- **The law**, for the tables before and after an opt-out. -/
structure HonoursOptOut (orgId phone : String) (db db' : OptOutDb) : Prop where
  suppressed : ∀ c ∈ db'.crm.contacts, c.HasPhone orgId phone → c.Suppressed
  others : db'.crm.contacts.filter (¬ ·.HasPhone orgId phone) =
    db.crm.contacts.filter (¬ ·.HasPhone orgId phone)
  again : ∀ d db'' ingested, d.OptsOut toLowerCase orgId phone db' →
    ingestOne toLowerCase d db' = some (db'', ingested) → db''.crm = db'.crm

end Ingestion

/-- **The condition**, on the contacts before and the row that the query returns. -/
def OneToSuppress (orgId phone : String) (row : ℕ) (contacts : List CrmContact) : Prop :=
  ∀ picked ∈ limitOne row (contacts.filter (·.HasPhone orgId phone)),
    (picked.unsubscribedAt = none ∨ picked.doNotContact = true) ∧
      ∀ c ∈ contacts, c.HasPhone orgId phone → c.id ≠ picked.id → c.Suppressed

instance (orgId phone : String) (row : ℕ) (contacts : List CrmContact) :
    Decidable (OneToSuppress orgId phone row contacts) :=
  inferInstanceAs (Decidable (∀ picked ∈ limitOne _ _, _))

/-! ### What a suppression does -/

section Suppression

variable {orgId phone channelId : String} {row : ℕ} {now : Instant} {crm : CrmTables}

variable {picked : CrmContact} {note : OptOutNote}

/-- The query returns a contact with the number, if there is one. -/
theorem hasPhone_of_picked {contacts : List CrmContact}
    (h : limitOne row (contacts.filter (·.HasPhone orgId phone)) = some picked) :
    picked ∈ contacts ∧ picked.HasPhone orgId phone := by
  obtain ⟨hmem, hphone⟩ := List.mem_filter.1 (mem_of_limitOne h)
  exact ⟨hmem, of_decide_eq_true hphone⟩

/-- The contacts are as they were, or the one that the query returned is suppressed. -/
theorem suppressContactByPhone_cases (channelId : String) (row : ℕ) (now : Instant)
    (crm : CrmTables) (orgId : String) (hphone : phone ≠ "") :
    (limitOne row (crm.contacts.filter (·.HasPhone orgId phone)) = none ∧
        suppressContactByPhone orgId (some phone) channelId row now crm = crm) ∨
      ∃ picked, limitOne row (crm.contacts.filter (·.HasPhone orgId phone)) = some picked ∧
        ((picked.unsubscribedAt.isSome = true ∧
            suppressContactByPhone orgId (some phone) channelId row now crm = crm) ∨
          (picked.unsubscribedAt = none ∧
            suppressContactByPhone orgId (some phone) channelId row now crm =
              crm.suppress picked.id now ⟨orgId, picked.id, channelId⟩)) := by
  have hfilter : (some phone).filter (· ≠ "") = some phone := by simp [hphone]
  rcases hpicked : limitOne row (crm.contacts.filter (·.HasPhone orgId phone)) with _ | picked
  · exact .inl ⟨hpicked, by simp only [suppressContactByPhone, hfilter, hpicked]⟩
  refine .inr ⟨picked, hpicked, ?_⟩
  rcases hat : picked.unsubscribedAt with _ | at'
  · refine .inr ⟨rfl, ?_⟩
    simp only [suppressContactByPhone, hfilter, hpicked, hat]
    rfl
  · refine .inl ⟨rfl, ?_⟩
    simp only [suppressContactByPhone, hfilter, hpicked, hat]
    rfl

/-- Only the contact with the id is suppressed. -/
theorem mem_suppress {id : String} {c : CrmContact} : c ∈ (crm.suppress id now note).contacts ↔
      (c ∈ crm.contacts ∧ c.id ≠ id) ∨ ∃ b ∈ crm.contacts, b.id = id ∧ c = b.suppress now := by
  simp only [CrmTables.suppress, List.mem_map]
  constructor
  · rintro ⟨b, hb, rfl⟩
    split_ifs with hid
    · exact .inr ⟨b, hb, hid, rfl⟩
    · exact .inl ⟨hb, hid⟩
  · rintro (⟨hc, hid⟩ | ⟨b, hb, hid, rfl⟩)
    · exact ⟨c, hc, if_neg hid⟩
    · exact ⟨b, hb, if_pos hid⟩

/-- The contacts without the number are not touched. -/
theorem filter_suppress (hmem : picked ∈ crm.contacts) (hphone : picked.HasPhone orgId phone) :
    (crm.suppress picked.id now note).contacts.filter (¬ ·.HasPhone orgId phone) =
      crm.contacts.filter (¬ ·.HasPhone orgId phone) := by
  have hsame : ∀ c ∈ crm.contacts.filter (¬ ·.HasPhone orgId phone),
      (if c.id = picked.id then c.suppress now else c) = c := by
    intro c hc
    obtain ⟨hc, hnot⟩ := List.mem_filter.1 hc
    refine if_neg fun hid => ?_
    obtain rfl := crm.unique.eq_of_key hc hmem (congrArg some hid) rfl
    exact of_decide_eq_true hnot hphone
  have hkeep : (fun c : CrmContact => decide ¬ c.HasPhone orgId phone) ∘
      (fun c : CrmContact => if c.id = picked.id then c.suppress now else c) =
        fun c : CrmContact => decide ¬ c.HasPhone orgId phone := by
    funext c
    dsimp only [Function.comp_apply]
    split_ifs <;> rfl
  rw [CrmTables.suppress, List.filter_map, hkeep, List.map_congr_left hsame, List.map_id']

/-- **A suppression reaches every contact with the number** if and only if the condition holds. -/
theorem suppressed_iff (channelId : String) (row : ℕ) (now : Instant) (crm : CrmTables)
    (orgId : String) (hphone : phone ≠ "") :
    (∀ c ∈ (suppressContactByPhone orgId (some phone) channelId row now crm).contacts,
        c.HasPhone orgId phone → c.Suppressed) ↔
      OneToSuppress orgId phone row crm.contacts := by
  rcases suppressContactByPhone_cases channelId row now crm orgId hphone with
    ⟨hnone, heq⟩ | ⟨picked, hpicked, ⟨hat, heq⟩ | ⟨hat, heq⟩⟩
  · rw [heq]
    refine iff_of_true (fun c hc hhas => ?_) (fun picked hpicked => ?_)
    · exact absurd (List.mem_filter.2 ⟨hc, decide_eq_true hhas⟩)
        (limitOne_eq_none.1 hnone ▸ List.not_mem_nil)
    · cases hnone.symm.trans hpicked
  · -- Who is unsubscribed already ends the search.
    rw [heq]
    obtain ⟨hmem, hhas⟩ := hasPhone_of_picked hpicked
    constructor
    · intro hall p hp
      obtain rfl := Option.some.inj (hpicked.symm.trans hp)
      exact ⟨.inr (hall picked hmem hhas).2, fun c hc hcphone _ => hall c hc hcphone⟩
    · intro hcond c hc hcphone
      obtain ⟨hpick, hothers⟩ := hcond picked hpicked
      by_cases hid : c.id = picked.id
      · obtain rfl := crm.unique.eq_of_key hc hmem (congrArg some hid) rfl
        refine ⟨hat, hpick.resolve_left fun hnone => ?_⟩
        rw [hnone] at hat
        cases hat
      · exact hothers c hc hcphone hid
  · rw [heq]
    obtain ⟨hmem, hhas⟩ := hasPhone_of_picked hpicked
    constructor
    · intro hall p hp
      obtain rfl := Option.some.inj (hpicked.symm.trans hp)
      exact ⟨.inl hat, fun c hc hcphone hid => hall c (mem_suppress.2 (.inl ⟨hc, hid⟩)) hcphone⟩
    · intro hcond c hc hcphone
      rcases mem_suppress.1 hc with ⟨hc, hid⟩ | ⟨b, -, -, rfl⟩
      · exact (hcond picked hpicked).2 c hc hcphone hid
      · exact b.suppressed_suppress now

/-- Contacts without the number stay, whatever the query returns. -/
theorem others_of_suppress (hphone : phone ≠ "") :
    (suppressContactByPhone orgId (some phone) channelId row now crm).contacts.filter
        (¬ ·.HasPhone orgId phone) =
      crm.contacts.filter (¬ ·.HasPhone orgId phone) := by
  rcases suppressContactByPhone_cases channelId row now crm orgId hphone with
    ⟨-, heq⟩ | ⟨picked, hpicked, ⟨-, heq⟩ | ⟨-, heq⟩⟩
  · rw [heq]
  · rw [heq]
  · rw [heq]
    obtain ⟨hmem, hhas⟩ := hasPhone_of_picked hpicked
    exact filter_suppress hmem hhas

/-- Where all are suppressed, another suppression changes nothing. -/
theorem suppress_again (hphone : phone ≠ "")
    (hall : ∀ c ∈ crm.contacts, c.HasPhone orgId phone → c.Suppressed) :
    suppressContactByPhone orgId (some phone) channelId row now crm = crm := by
  rcases suppressContactByPhone_cases channelId row now crm orgId hphone with
    ⟨-, heq⟩ | ⟨picked, hpicked, ⟨-, heq⟩ | ⟨hat, -⟩⟩
  · exact heq
  · exact heq
  · obtain ⟨hmem, hhas⟩ := hasPhone_of_picked hpicked
    have hsome := (hall picked hmem hhas).1
    rw [hat] at hsome
    cases hsome

end Suppression

/-! ### What an ingestion does -/

section Ingestion

variable {toLowerCase : String → String} {orgId phone : String} {d : SmsDelivery}
  {db db' : OptOutDb}

/-- An opt-out that is ingested suppresses by the number, and one that was ingested before leaves
the CRM alone. -/
theorem crm_of_ingestOne (hout : d.OptsOut toLowerCase orgId phone db) {ingested : Bool}
    (h : ingestOne toLowerCase d db = some (db', ingested)) :
    db'.crm = if ingested then
      suppressContactByPhone orgId (some phone) d.channel.id d.crmRow d.now db.crm else db.crm := by
  rw [ingestOne] at h
  simp only at h
  rw [if_pos (⟨hout.sms, hout.keyword⟩ : _ ∧ _), hout.sender, hout.org] at h
  split_ifs at h with hdup
  · cases h
    rfl
  · obtain ⟨conversations, -, heq⟩ := Option.map_eq_some_iff.1 h
    obtain ⟨rfl, rfl⟩ := Prod.mk.inj heq
    rfl

/-- **When an opt-out is honoured.** An opt-out that is ingested leaves every contact with the
number suppressed and the others as they were, and another one changes nothing, if and only if the
contacts meet the condition before. -/
theorem optOut_honoured_iff (hphone : phone ≠ "") (hout : d.OptsOut toLowerCase orgId phone db)
    (h : ingestOne toLowerCase d db = some (db', true)) :
    HonoursOptOut toLowerCase orgId phone db db' ↔
      OneToSuppress orgId phone d.crmRow db.crm.contacts := by
  have hcrm := crm_of_ingestOne hout h
  rw [if_pos rfl] at hcrm
  have hsuppressed := suppressed_iff d.channel.id d.crmRow d.now db.crm orgId hphone
  rw [← hcrm] at hsuppressed
  constructor
  · exact fun hlaw => hsuppressed.1 hlaw.suppressed
  · intro hcond
    refine ⟨hsuppressed.2 hcond, ?_, fun d₂ db'' ingested hout₂ h₂ => ?_⟩
    · rw [hcrm]
      exact others_of_suppress hphone
    · rw [crm_of_ingestOne hout₂ h₂, suppress_again hphone (hsuppressed.2 hcond), ite_self]

end Ingestion

/-! ### A number of two contacts -/

/-- An SMS that says STOP. -/
def stopMessage : SmsDelivery where
  channel := ⟨"sms1", "org1", "sms", .auto⟩
  message := ⟨"SM1", { phone := some "+4712345678" }, "STOP", 100⟩
  contactId := "contact1"
  conversationId := "conv1"
  redacted := "STOP"
  now := 100

/-- Contacts of the CRM with the number of the message. -/
def crmOf (ids : List String) (hids : UniqueKeys CrmContact.key
    (ids.map fun id => ⟨id, "org1", some "+4712345678", none, false, 0⟩)) : OptOutDb where
  crm := ⟨_, [], hids⟩

/-- Lower case, for the letters of ASCII. -/
def lowerAscii (s : String) : String := .ofList (s.toList.map Char.toLower)

/-- The only contact with the number is suppressed. -/
theorem optOut_honoured_iff_single :
    ∃ db', ingestOne lowerAscii stopMessage (crmOf ["a"] (by decide)) = some (db', true) ∧
      HonoursOptOut lowerAscii "org1" "+4712345678" (crmOf ["a"] (by decide)) db' := by
  obtain ⟨db', hdb'⟩ : ∃ db', ingestOne lowerAscii stopMessage (crmOf ["a"] (by decide)) =
      some (db', true) := ⟨_, rfl⟩
  exact ⟨db', hdb', (optOut_honoured_iff (by decide)
    ⟨rfl, rfl, by decide +kernel, by decide +kernel⟩ hdb').2 (by decide +kernel)⟩

/-- **Of two contacts with the number, one is not suppressed.** -/
theorem optOut_misses_contact :
    ∃ db', ingestOne lowerAscii stopMessage (crmOf ["a", "b"] (by decide)) = some (db', true) ∧
      stopMessage.OptsOut lowerAscii "org1" "+4712345678" (crmOf ["a", "b"] (by decide)) ∧
      ¬ HonoursOptOut lowerAscii "org1" "+4712345678" (crmOf ["a", "b"] (by decide)) db' := by
  refine ⟨_, rfl, ⟨rfl, rfl, by decide +kernel, by decide +kernel⟩, fun hlaw => ?_⟩
  have hb := hlaw.suppressed ⟨"b", "org1", some "+4712345678", none, false, 0⟩ (by decide +kernel)
    ⟨rfl, rfl⟩
  exact absurd hb (by decide)

end Munin
