import Munin.Foundations.Instant
import Munin.Foundations.JsString
import Munin.Foundations.Keyset

/-!
# The pages of the conversation lists

Conversations are listed in three places. The inbox shows those that need attention first and then
the latest; the queue shows the latest; the list of an end user is in the order of the inbox. A page
ends in a cursor, from which the next one goes on.

The database keeps timestamps to the microsecond and puts a missing one first; a cursor has them to
the millisecond. The end user's controller reads no more of a cursor than its timestamp and id.

* **`listConversationsPage`, `listConversationQueuePage`** — the pages of the service.
* **`inboxPage`, `queuePage`, `endUserPage`** — as the controllers ask for them, with the cursors
  that they read back.
* **`conversation_pages_complete`** — when following the cursors shows the list.
* **`conversation_pages_skip`** — lists that are not shown.
-/

namespace Munin

open Foundations

/-- A timestamp of the database, in microseconds. -/
abbrev Micros := ℤ

/-- `STATUSES`: the statuses of a conversation. -/
inductive ConversationStatus where
  | opened
  | snoozed
  | closed
  | spam
  deriving DecidableEq

/-- `HANDOVER_FILTERS`. -/
inductive HandoverFilter where
  | active
  | resolved
  | never

/-- `SUPPRESSED_REASONS`. -/
inductive SuppressedReason where
  | autoReply
  | bounce
  | noReplyAddress
  | spamSender
  | noContent
  deriving DecidableEq

/-- `SUPPRESSED_REASON_FILTERS`. -/
inductive SuppressedReasonFilter where
  | reason (r : SuppressedReason)
  | any
  | none

/-- A row of `conv_conversations`, with an id of the order in which the database sorts ids. -/
structure ConversationRow (ι : Type*) where
  id : ι
  channelId : String := ""
  endUserId : Option String := none
  topicId : Option String := none
  assigneeUserId : Option String := none
  status : ConversationStatus := .opened
  suppressedReason : Option SuppressedReason := none
  lastMessageAt : Option Micros
  needsHumanAttention : Bool := false
  handoverResolvedAt : Option Micros := none
  unengaged : Bool := false
  deriving DecidableEq

/-- The conversations that a request sees. -/
structure ConversationTable (ι : Type*) where
  rows : List (ConversationRow ι)
  ids_nodup : (rows.map (·.id)).Nodup

/-- A cursor, as the pages take and give it. -/
structure ListCursor (ι : Type*) where
  lastMessageAt : Option Instant
  id : ι
  needsHumanAttention : Option Bool := none
  deriving DecidableEq

/-- What is asked for. -/
structure ListInput (ι : Type*) where
  status : Option ConversationStatus := none
  excludeStatuses : List ConversationStatus := []
  assigneeUserId : Option String := none
  topicId : Option String := none
  endUserId : Option String := none
  needsHumanAttention : Option Bool := none
  handover : Option HandoverFilter := none
  suppressedReason : Option SuppressedReasonFilter := none
  channelType : Option String := none
  since : Option String := none
  search : Option String := none
  limit : Option ℤ := none
  cursor : Option (ListCursor ι) := none

/-- What the lists ask of other code. -/
structure ListFacts (ι : Type*) where
  /-- `new Date(text)`; `none` for an invalid date. -/
  parseDate : String → Option Instant := fun _ => none
  /-- The type of a channel. -/
  channelType : String → Option String := fun _ => none
  /-- Whether a search finds the conversation, its people, its topic or its messages. -/
  finds : String → ConversationRow ι → Bool := fun _ _ => true

/-- A timestamp as a `Date` has it. -/
def Micros.toDate (t : Micros) : Instant := t / 1000

def clampLimit (value : Option ℤ) (fallback max : ℕ) : ℕ :=
  match value with
  | none => fallback
  | some v => if v ≤ 0 then fallback else min v.toNat max

section Lists

variable {ι : Type*} [LinearOrder ι]

/-! ### The filters -/

namespace ConversationRow

variable (row : ConversationRow ι)

/-- The row comes after the cursor by its timestamp and id. -/
def activityTail (lastMessageAt : Option Instant) (id : ι) : Bool :=
  match lastMessageAt, row.lastMessageAt with
  | none, none => row.id < id
  | none, some _ => true
  | some _, none => false
  | some t, some u => u < t * 1000 || (u = t * 1000 && row.id < id)

/-- `ORDER BY last_message_at DESC, id DESC`: the row comes before the other. -/
def activityBefore (other : ConversationRow ι) : Bool :=
  match row.lastMessageAt, other.lastMessageAt with
  | none, none => other.id < row.id
  | none, some _ => true
  | some _, none => false
  | some t, some u => u < t || (u = t && other.id < row.id)

/-- `ORDER BY needs_human_attention DESC, last_message_at DESC, id DESC`. -/
def listBefore (other : ConversationRow ι) : Bool :=
  (row.needsHumanAttention && !other.needsHumanAttention) ||
    (row.needsHumanAttention == other.needsHumanAttention && row.activityBefore other)

/-- The cursor at a row. -/
def cursor : ListCursor ι where
  lastMessageAt := row.lastMessageAt.map Micros.toDate
  id := row.id
  needsHumanAttention := some row.needsHumanAttention

/-- The cursor of the queue at a row. -/
def queueCursor : ListCursor ι where
  lastMessageAt := row.lastMessageAt.map Micros.toDate
  id := row.id

end ConversationRow

/-- The rows that come after a cursor. -/
def ListCursor.admits (c : ListCursor ι) (row : ConversationRow ι) : Bool :=
  match c.needsHumanAttention with
  | none => row.activityTail c.lastMessageAt c.id
  | some flag =>
    (!row.needsHumanAttention && flag) ||
      (row.needsHumanAttention == flag && row.activityTail c.lastMessageAt c.id)

/-- The date of `since`, if one is given. -/
def ListInput.sinceDate (facts : ListFacts ι) (input : ListInput ι) :
    Except String (Option Instant) :=
  match input.since with
  | none => .ok none
  | some text =>
    if text = "" then .ok none
    else match facts.parseDate text with
      | none => .error ("since must be an ISO 8601 timestamp, got \"" ++ text ++ "\"")
      | some date => .ok (some date)

/-- The filters, but for the one of the cursor. -/
def ListInput.selects (facts : ListFacts ι) (input : ListInput ι) (since : Option Instant)
    (row : ConversationRow ι) : Bool :=
  !row.unengaged &&
    input.status.all (row.status == ·) &&
    !input.excludeStatuses.contains row.status &&
    (!truthy input.assigneeUserId || row.assigneeUserId == input.assigneeUserId) &&
    (!truthy input.topicId || row.topicId == input.topicId) &&
    (match input.suppressedReason with
      | none => true
      | some .any => row.suppressedReason.isSome
      | some .none => row.suppressedReason.isNone
      | some (.reason r) => row.suppressedReason == some r) &&
    (!truthy input.channelType || facts.channelType row.channelId == input.channelType) &&
    (!truthy input.endUserId || row.endUserId == input.endUserId) &&
    input.needsHumanAttention.all (row.needsHumanAttention == ·) &&
    (match input.handover with
      | none => true
      | some .active => row.needsHumanAttention
      | some .resolved => row.handoverResolvedAt.isSome
      | some .never => !row.needsHumanAttention && row.handoverResolvedAt.isNone) &&
    since.all (fun date => row.lastMessageAt.any (date * 1000 ≤ ·)) &&
    (trimOrNull input.search).all (facts.finds · row)

def buildConversationListFilters (facts : ListFacts ι) (input : ListInput ι) :
    Except String (ConversationRow ι → Bool) :=
  (input.sinceDate facts).map fun since row =>
    input.selects facts since row && input.cursor.all (·.admits row)

/-! ### The pages -/

/-- A page, and the cursor of the next one if there is more. -/
abbrev ConversationPage (ι : Type*) := List (ConversationRow ι) × Option (ListCursor ι)

def listConversationsPage (facts : ListFacts ι) (table : ConversationTable ι)
    (input : ListInput ι) : Except String (ConversationPage ι) :=
  let limit := clampLimit input.limit 50 200
  (buildConversationListFilters facts input).map fun filters =>
    let rows := (sortedBy ConversationRow.listBefore (table.rows.filter filters)).take (limit + 1)
    let items := rows.take limit
    (items, if limit < rows.length then items.getLast?.map (·.cursor) else none)

def listConversationQueuePage (facts : ListFacts ι) (table : ConversationTable ι)
    (input : ListInput ι) : Except String (ConversationPage ι) :=
  let limit := clampLimit input.limit 50 200
  let cursor : Option (ListCursor ι) := input.cursor.map fun c =>
    { lastMessageAt := c.lastMessageAt, id := c.id }
  (buildConversationListFilters facts { input with cursor := cursor }).map fun filters =>
    let rows := (sortedBy ConversationRow.activityBefore (table.rows.filter filters)).take
      (limit + 1)
    let page := rows.take limit
    (page, if limit < rows.length then page.getLast?.map (·.queueCursor) else none)

/-- A page of the inbox: its controller reads all of the cursor that it gave. -/
def inboxPage (facts : ListFacts ι) (table : ConversationTable ι) (input : ListInput ι)
    (cursor : Option (ListCursor ι)) : Option (ConversationPage ι) :=
  (listConversationsPage facts table { input with cursor := cursor }).toOption

/-- A page of the queue. -/
def queuePage (facts : ListFacts ι) (table : ConversationTable ι) (input : ListInput ι)
    (cursor : Option (ListCursor ι)) : Option (ConversationPage ι) :=
  (listConversationQueuePage facts table { input with cursor := cursor }).toOption

/-- What the end user's controller reads of a cursor. -/
def decodeEndUserCursor (c : ListCursor ι) : ListCursor ι where
  lastMessageAt := c.lastMessageAt
  id := c.id

/-- A page of an end user's list. -/
def endUserPage (facts : ListFacts ι) (table : ConversationTable ι)
    (status : Option ConversationStatus) (limit : Option ℤ) (cursor : Option (ListCursor ι)) :
    Option (ConversationPage ι) :=
  (listConversationsPage facts table
    { status := status
      limit := limit.map (min · 50)
      cursor := cursor.map decodeEndUserCursor }).toOption

/-! ### The lists -/

/-- What the inbox lists, in its order. -/
def inboxList (facts : ListFacts ι) (table : ConversationTable ι) (input : ListInput ι)
    (since : Option Instant) : List (ConversationRow ι) :=
  sortedBy ConversationRow.listBefore (table.rows.filter (input.selects facts since))

/-- What the queue lists, in its order. -/
def queueList (facts : ListFacts ι) (table : ConversationTable ι) (input : ListInput ι)
    (since : Option Instant) : List (ConversationRow ι) :=
  sortedBy ConversationRow.activityBefore (table.rows.filter (input.selects facts since))

/-- What an end user's list has, in its order. -/
def endUserList (facts : ListFacts ι) (table : ConversationTable ι)
    (status : Option ConversationStatus) : List (ConversationRow ι) :=
  inboxList facts table { status := status } none

/-! ### The orders -/

section Order

variable {l : List (ConversationRow ι)}

theorem activityBefore_asymm (a b : ConversationRow ι) (h : a.activityBefore b = true) :
    b.activityBefore a = false := by
  unfold ConversationRow.activityBefore at *
  cases ha : a.lastMessageAt <;> cases hb : b.lastMessageAt <;> simp_all <;> grind

theorem activityBefore_between (a b c : ConversationRow ι) (h : a.activityBefore c = true) :
    a.activityBefore b = true ∨ b.activityBefore c = true := by
  unfold ConversationRow.activityBefore at *
  cases ha : a.lastMessageAt <;> cases hb : b.lastMessageAt <;> cases hc : c.lastMessageAt <;>
    simp_all <;> grind

theorem activityBefore_total {a b : ConversationRow ι} (h : a.id ≠ b.id) :
    a.activityBefore b = true ∨ b.activityBefore a = true := by
  unfold ConversationRow.activityBefore
  cases ha : a.lastMessageAt <;> cases hb : b.lastMessageAt <;> simp_all <;> grind

theorem listBefore_iff {a b : ConversationRow ι} : a.listBefore b = true ↔
    (a.needsHumanAttention = true ∧ b.needsHumanAttention = false) ∨
      (a.needsHumanAttention = b.needsHumanAttention ∧ a.activityBefore b = true) := by
  simp [ConversationRow.listBefore]

/-- Rows with different ids have one order of activity. -/
theorem ranks_activityBefore (h : (l.map (·.id)).Nodup) :
    Ranks ConversationRow.activityBefore l where
  asymm := activityBefore_asymm
  between := activityBefore_between
  total _ ha _ hb hne := activityBefore_total fun hid => hne (List.inj_on_of_nodup_map h ha hb hid)

/-- So have they one order of the list. -/
theorem ranks_listBefore (h : (l.map (·.id)).Nodup) : Ranks ConversationRow.listBefore l where
  asymm a b hab := by
    rw [Bool.eq_false_iff, ne_eq, listBefore_iff]
    rcases listBefore_iff.1 hab with ⟨ha, hb⟩ | ⟨hflag, hact⟩
    · simp [ha, hb]
    · simp [hflag, activityBefore_asymm a b hact]
  between a b c hac := by
    rw [listBefore_iff, listBefore_iff]
    rcases listBefore_iff.1 hac with ⟨ha, hc⟩ | ⟨hflag, hact⟩
    · cases hb : b.needsHumanAttention with
      | false => exact .inl (.inl ⟨ha, rfl⟩)
      | true => exact .inr (.inl ⟨rfl, hc⟩)
    · have hbetween := activityBefore_between a b c hact
      cases hb : b.needsHumanAttention <;> cases ha : a.needsHumanAttention <;>
        simp_all
  total a ha b hb hne := by
    rw [listBefore_iff, listBefore_iff]
    have hact := activityBefore_total fun hid => hne (List.inj_on_of_nodup_map h ha hb hid)
    cases hfa : a.needsHumanAttention <;> cases hfb : b.needsHumanAttention <;>
      simp_all

end Order

end Lists

namespace ConversationTable

variable {ι : Type*} (table : ConversationTable ι) (p : ConversationRow ι → Bool)

theorem rows_nodup : table.rows.Nodup :=
  List.Nodup.of_map _ table.ids_nodup

theorem filter_ids_nodup : ((table.rows.filter p).map (·.id)).Nodup :=
  table.ids_nodup.sublist (List.filter_sublist.map _)

end ConversationTable

/-! ### The pages, as pages of the lists -/

section Pages

variable {ι : Type*} [LinearOrder ι]

/-- The cursors of the inbox. -/
def inboxKeyset (ι : Type*) [LinearOrder ι] : Keyset (ConversationRow ι) (ListCursor ι) where
  cursorOf row := row.cursor
  passes c row := c.admits row

/-- The cursors of the queue. -/
def queueKeyset (ι : Type*) [LinearOrder ι] : Keyset (ConversationRow ι) (ListCursor ι) where
  cursorOf row := row.queueCursor
  passes c row := row.activityTail c.lastMessageAt c.id

/-- The cursors of the end users: given as for the inbox, and read as for the queue. -/
def endUserKeyset (ι : Type*) [LinearOrder ι] : Keyset (ConversationRow ι) (ListCursor ι) where
  cursorOf row := row.cursor
  passes c row := row.activityTail c.lastMessageAt c.id

variable {facts : ListFacts ι} {table : ConversationTable ι} {input : ListInput ι}
  {since : Option Instant}

theorem clampLimit_pos (value : Option ℤ) : 0 < clampLimit value 50 200 := by
  unfold clampLimit
  split
  · omega
  · split <;> omega

omit [LinearOrder ι] in
/-- The list of what a cursor leaves is what it leaves of the list. -/
theorem sortedBy_filter_and {before : ConversationRow ι → ConversationRow ι → Bool}
    {p q : ConversationRow ι → Bool} (hrank : Ranks before (table.rows.filter p)) :
    sortedBy before (table.rows.filter fun row => p row && q row) =
      (sortedBy before (table.rows.filter p)).filter q := by
  rw [hrank.filter_sortedBy (table.rows_nodup.filter p), List.filter_filter]
  simp only [Bool.and_comm]

theorem inboxPage_eq (hvalid : input.sinceDate facts = .ok since) (cursor : Option (ListCursor ι)) :
    inboxPage facts table input cursor = some ((inboxKeyset ι).fetch
      (inboxList facts table input since) (clampLimit input.limit 50 200) cursor) := by
  have hfilters : buildConversationListFilters facts { input with cursor := cursor } =
      .ok fun row => input.selects facts since row && cursor.all (·.admits row) := by
    rw [buildConversationListFilters]
    exact congrArg (Except.map _) hvalid
  rw [inboxPage, listConversationsPage, hfilters]
  have hsorted := sortedBy_filter_and (q := fun row => cursor.all (·.admits row))
    (ranks_listBefore (table.filter_ids_nodup (input.selects facts since)))
  simp only [Except.map, Except.toOption, hsorted]
  rfl

theorem queuePage_eq (hvalid : input.sinceDate facts = .ok since) (cursor : Option (ListCursor ι)) :
    queuePage facts table input cursor = some ((queueKeyset ι).fetch
      (queueList facts table input since) (clampLimit input.limit 50 200) cursor) := by
  let passed : Option (ListCursor ι) :=
    cursor.map fun c => { lastMessageAt := c.lastMessageAt, id := c.id }
  have hfilters : buildConversationListFilters facts { input with cursor := passed } =
      .ok fun row => input.selects facts since row && passed.all (·.admits row) := by
    rw [buildConversationListFilters]
    exact congrArg (Except.map _) hvalid
  have hpassed : (fun row : ConversationRow ι => passed.all (·.admits row)) = fun row =>
      cursor.all fun c => (queueKeyset ι).passes c row := by
    funext row
    cases cursor <;> rfl
  have hsorted := sortedBy_filter_and (q := fun row => passed.all (·.admits row))
    (ranks_activityBefore (table.filter_ids_nodup (input.selects facts since)))
  rw [queuePage, listConversationQueuePage]
  simp only [show (cursor.map fun c : ListCursor ι =>
    ({ lastMessageAt := c.lastMessageAt, id := c.id } : ListCursor ι)) = passed from rfl, hfilters,
    Except.map, Except.toOption, hsorted, hpassed]
  rfl

theorem endUserPage_eq (status : Option ConversationStatus) (limit : Option ℤ)
    (cursor : Option (ListCursor ι)) :
    endUserPage facts table status limit cursor = some ((endUserKeyset ι).fetch
      (endUserList facts table status) (clampLimit (limit.map (min · 50)) 50 200) cursor) := by
  let asked : ListInput ι := { status := status, limit := limit.map (min · 50) }
  have hvalid : asked.sinceDate facts = .ok none := rfl
  -- without its flag, a cursor of the inbox tests the timestamp and the id
  have hfetch (l : List (ConversationRow ι)) (n : ℕ) :
      (inboxKeyset ι).fetch l n (cursor.map decodeEndUserCursor) =
        (endUserKeyset ι).fetch l n cursor := by
    cases cursor <;> rfl
  calc endUserPage facts table status limit cursor
      = inboxPage facts table asked (cursor.map decodeEndUserCursor) := rfl
    _ = some ((inboxKeyset ι).fetch (inboxList facts table asked none)
          (clampLimit asked.limit 50 200) (cursor.map decodeEndUserCursor)) :=
        inboxPage_eq hvalid _
    _ = _ := congrArg some (hfetch _ _)

/-! ### When a cursor loses the next conversation -/

/-- Two conversations, one after the other, that a cursor to the millisecond does not tell apart: it
is at the start of the first one's millisecond, and the second one is not before that, or at it with
an id that is not smaller. -/
def ConversationRow.splitsMillisecond (last next : ConversationRow ι) : Bool :=
  match last.lastMessageAt, next.lastMessageAt with
  | some t, some u => t.toDate * 1000 < u || (u = t.toDate * 1000 && last.id ≤ next.id)
  | _, _ => false

theorem activityTail_self (row : ConversationRow ι) :
    row.activityTail (row.lastMessageAt.map Micros.toDate) row.id = false := by
  cases h : row.lastMessageAt with
  | none => simp [ConversationRow.activityTail, h]
  | some t =>
    have hle : t / 1000 * 1000 ≤ t := Int.ediv_mul_le t (by decide)
    simp [ConversationRow.activityTail, h, Micros.toDate]
    omega

variable {a b : ConversationRow ι}

/-- What comes before a row fails the test of its cursor. -/
theorem activityTail_back (h : a.activityBefore b = true) :
    a.activityTail (b.lastMessageAt.map Micros.toDate) b.id = false := by
  unfold ConversationRow.activityBefore at h
  cases ha : a.lastMessageAt with
  | none => cases hb : b.lastMessageAt <;> simp_all [ConversationRow.activityTail, le_of_lt]
  | some u =>
    cases hb : b.lastMessageAt with
    | none => simp_all
    | some t =>
      have hle : t / 1000 * 1000 ≤ t := Int.ediv_mul_le t (by decide)
      simp only [ha, hb, Bool.or_eq_true, Bool.and_eq_true, decide_eq_true_eq] at h
      simp only [ConversationRow.activityTail, ha, Option.map_some, Micros.toDate,
        Bool.or_eq_false_iff, Bool.and_eq_false_iff, decide_eq_false_iff_not, not_lt]
      rcases h with h | ⟨h, hid⟩
      · exact ⟨hle.trans h.le, .inl (lt_of_le_of_lt hle h).ne'⟩
      · exact ⟨hle.trans h.le, .inr hid.le⟩

/-- What comes after a row that passes a cursor's test passes it. -/
theorem activityTail_onward {lastMessageAt : Option Instant} {id : ι}
    (h : a.activityBefore b = true) (ha : a.activityTail lastMessageAt id = true) :
    b.activityTail lastMessageAt id = true := by
  unfold ConversationRow.activityBefore at h
  unfold ConversationRow.activityTail at *
  cases lastMessageAt <;> cases hta : a.lastMessageAt <;> cases htb : b.lastMessageAt <;>
    simp_all <;> grind

/-- What comes after a row passes its cursor's test unless the cursor splits a millisecond. -/
theorem activityTail_next (h : a.activityBefore b = true) :
    b.activityTail (a.lastMessageAt.map Micros.toDate) a.id = true ↔
      a.splitsMillisecond b = false := by
  unfold ConversationRow.activityBefore at h
  cases ha : a.lastMessageAt with
  | none =>
    cases hb : b.lastMessageAt <;>
      simp_all [ConversationRow.activityTail, ConversationRow.splitsMillisecond]
  | some t =>
    cases hb : b.lastMessageAt with
    | none => simp_all
    | some u =>
      simp only [ConversationRow.activityTail, ConversationRow.splitsMillisecond, ha, hb,
        Option.map_some, Bool.or_eq_true, Bool.and_eq_true, decide_eq_true_eq,
        Bool.or_eq_false_iff, Bool.and_eq_false_iff, decide_eq_false_iff_not, not_le, not_lt]
      constructor
      · rintro (hlt | ⟨heq, hid⟩)
        · exact ⟨hlt.le, .inl hlt.ne⟩
        · exact ⟨heq.le, .inr hid⟩
      · rintro ⟨hle, hne | hid⟩
        · exact .inl (lt_of_le_of_ne hle hne)
        · rcases lt_or_eq_of_le hle with hlt | heq
          · exact .inl hlt
          · exact .inr ⟨heq, hid⟩

/-- A whole millisecond is not split. -/
theorem splitsMillisecond_of_whole (h : a.activityBefore b = true)
    (hwhole : ∀ t ∈ a.lastMessageAt, t % 1000 = 0) : a.splitsMillisecond b = false := by
  rw [← activityTail_next h]
  unfold ConversationRow.activityBefore at h
  cases ha : a.lastMessageAt with
  | none => cases hb : b.lastMessageAt <;> simp_all [ConversationRow.activityTail]
  | some t =>
    have hdate : t / 1000 * 1000 = t := Int.ediv_mul_cancel_of_emod_eq_zero (hwhole t ha)
    cases hb : b.lastMessageAt <;>
      simp_all [ConversationRow.activityTail, Micros.toDate]

theorem admits_cursor : a.cursor.admits b = true ↔
    (a.needsHumanAttention = true ∧ b.needsHumanAttention = false) ∨
      (a.needsHumanAttention = b.needsHumanAttention ∧
        b.activityTail (a.lastMessageAt.map Micros.toDate) a.id = true) := by
  simp only [ConversationRow.cursor, ListCursor.admits, Bool.or_eq_true, Bool.and_eq_true,
    Bool.not_eq_true', beq_iff_eq]
  rw [and_comm, @eq_comm _ b.needsHumanAttention a.needsHumanAttention]

/-- The cursors of the inbox go along its order. -/
theorem along_inbox (l : List (ConversationRow ι)) :
    (inboxKeyset ι).Along ConversationRow.listBefore l where
  fails a _ := by
    rw [Bool.eq_false_iff]
    intro h
    rcases admits_cursor.1 h with ⟨htrue, hfalse⟩ | ⟨-, htail⟩
    · rw [htrue] at hfalse
      cases hfalse
    · rw [activityTail_self] at htail
      cases htail
  back a _ b _ hab := by
    rw [Bool.eq_false_iff]
    intro h
    rcases admits_cursor.1 h with ⟨hb, ha⟩ | ⟨hflag, htail⟩ <;>
      rcases listBefore_iff.1 hab with ⟨ha', hb'⟩ | ⟨hflag', hact⟩
    · rw [hb] at hb'
      cases hb'
    · rw [hflag', hb] at ha
      cases ha
    · rw [← hflag, hb'] at ha'
      cases ha'
    · rw [activityTail_back hact] at htail
      cases htail
  onward a _ b _ c _ hab h := by
    refine admits_cursor.2 ?_
    rcases admits_cursor.1 h with ⟨hc, ha⟩ | ⟨hflag, htail⟩ <;>
      rcases listBefore_iff.1 hab with ⟨ha', hb'⟩ | ⟨hflag', hact⟩
    · exact .inl ⟨hc, hb'⟩
    · exact .inl ⟨hc, hflag' ▸ ha⟩
    · exact .inl ⟨hflag.trans ha', hb'⟩
    · exact .inr ⟨hflag.trans hflag', activityTail_onward hact htail⟩

/-- The cursors of the queue go along its order. -/
theorem along_queue (l : List (ConversationRow ι)) :
    (queueKeyset ι).Along ConversationRow.activityBefore l where
  fails a _ := activityTail_self a
  back _ _ _ _ hab := activityTail_back hab
  onward _ _ _ _ _ _ hab h := activityTail_onward hab h

/-- In the inbox, what comes next passes unless the cursor splits a millisecond. -/
theorem admits_next (h : a.listBefore b = true) :
    a.cursor.admits b = true ↔ (a.needsHumanAttention = b.needsHumanAttention →
      a.splitsMillisecond b = false) := by
  rw [admits_cursor]
  rcases listBefore_iff.1 h with ⟨ha, hb⟩ | ⟨hflag, hact⟩
  · simp [ha, hb]
  · rw [activityTail_next hact, hflag]
    simp

/-! ### When the pages show the list -/

theorem inboxPages_iff (hvalid : input.sinceDate facts = .ok since) :
    PagesShow (inboxPage facts table input) (inboxList facts table input since) ↔
      ∀ last next, Keyset.PageBreak (inboxList facts table input since)
          (clampLimit input.limit 50 200)
        last next → last.needsHumanAttention = next.needsHumanAttention →
          last.splitsMillisecond next = false := by
  have hids := table.filter_ids_nodup (input.selects facts since)
  have hsorted := (ranks_listBefore hids).sorted (table.rows_nodup.filter _)
  have hnodup : (inboxList facts table input since).Nodup :=
    sortedBy_perm.nodup_iff.2 (table.rows_nodup.filter _)
  have hvisits := (along_inbox (inboxList facts table input since)).visits_iff hsorted
    (clampLimit_pos input.limit) hnodup
  rw [funext (inboxPage_eq hvalid), hvisits]
  exact forall₃_congr fun last next hbreak => admits_next (hbreak.before hsorted)

theorem queuePages_iff (hvalid : input.sinceDate facts = .ok since) :
    PagesShow (queuePage facts table input) (queueList facts table input since) ↔
      ∀ last next, Keyset.PageBreak (queueList facts table input since)
          (clampLimit input.limit 50 200)
        last next → last.splitsMillisecond next = false := by
  have hids := table.filter_ids_nodup (input.selects facts since)
  have hsorted := (ranks_activityBefore hids).sorted (table.rows_nodup.filter _)
  have hnodup : (queueList facts table input since).Nodup :=
    sortedBy_perm.nodup_iff.2 (table.rows_nodup.filter _)
  have hvisits := (along_queue (queueList facts table input since)).visits_iff hsorted
    (clampLimit_pos input.limit) hnodup
  rw [funext (queuePage_eq hvalid), hvisits]
  exact forall₃_congr fun last next hbreak => activityTail_next (hbreak.before hsorted)

theorem endUserPages_iff (status : Option ConversationStatus) (limit : Option ℤ) :
    PagesShow (endUserPage facts table status limit) (endUserList facts table status) ↔
      ∀ k, k * clampLimit (limit.map (min · 50)) 50 200 < (endUserList facts table status).length →
        (endUserKeyset ι).CleanBreak (endUserList facts table status)
          (clampLimit (limit.map (min · 50)) 50 200) k := by
  have hnodup : (endUserList facts table status).Nodup :=
    sortedBy_perm.nodup_iff.2 (table.rows_nodup.filter _)
  have hpage : endUserPage facts table status limit = fun cursor => some ((endUserKeyset ι).fetch
      (endUserList facts table status) (clampLimit (limit.map (min · 50)) 50 200) cursor) :=
    funext (endUserPage_eq status limit)
  rw [hpage]
  exact Keyset.visits_iff (clampLimit_pos _) hnodup

/-- **When the pages show the list.** In the inbox and in the queue, exactly if no page ends within
a millisecond that its cursor splits; in an end user's list, exactly if at the end of each page, the
timestamp and the id of the cursor tell the conversations shown from those to come. -/
theorem conversation_pages_complete (hvalid : input.sinceDate facts = .ok since) :
    (PagesShow (inboxPage facts table input) (inboxList facts table input since) ↔
      ∀ last next, Keyset.PageBreak (inboxList facts table input since)
        (clampLimit input.limit 50 200) last next →
          last.needsHumanAttention = next.needsHumanAttention →
            last.splitsMillisecond next = false) ∧
    (PagesShow (queuePage facts table input) (queueList facts table input since) ↔
      ∀ last next, Keyset.PageBreak (queueList facts table input since)
        (clampLimit input.limit 50 200) last next → last.splitsMillisecond next = false) ∧
    ∀ status limit,
      PagesShow (endUserPage facts table status limit) (endUserList facts table status) ↔
        ∀ k, k * clampLimit (limit.map (min · 50)) 50 200 <
            (endUserList facts table status).length →
          (endUserKeyset ι).CleanBreak (endUserList facts table status)
            (clampLimit (limit.map (min · 50)) 50 200) k :=
  ⟨inboxPages_iff hvalid, queuePages_iff hvalid, endUserPages_iff⟩

variable {last next : ConversationRow ι}

/-- Where all timestamps are whole milliseconds, no cursor of the inbox splits one. -/
theorem inbox_whole (hwhole : ∀ row ∈ table.rows, ∀ t ∈ row.lastMessageAt, t % 1000 = 0) {limit : ℕ}
    (h : Keyset.PageBreak (inboxList facts table input since) limit last next)
    (hflag : last.needsHumanAttention = next.needsHumanAttention) :
    last.splitsMillisecond next = false := by
  have hids := table.filter_ids_nodup (input.selects facts since)
  have hsorted := (ranks_listBefore hids).sorted (table.rows_nodup.filter _)
  rcases listBefore_iff.1 (h.before hsorted) with ⟨hlast, hnext⟩ | ⟨-, hact⟩
  · rw [hlast, hnext] at hflag
    cases hflag
  · exact splitsMillisecond_of_whole hact
      (hwhole last (List.mem_of_mem_filter (mem_sortedBy.1 h.last_mem)))

/-- Nor does one of the queue. -/
theorem queue_whole (hwhole : ∀ row ∈ table.rows, ∀ t ∈ row.lastMessageAt, t % 1000 = 0) {limit : ℕ}
    (h : Keyset.PageBreak (queueList facts table input since) limit last next) :
    last.splitsMillisecond next = false := by
  have hids := table.filter_ids_nodup (input.selects facts since)
  have hsorted := (ranks_activityBefore hids).sorted (table.rows_nodup.filter _)
  exact splitsMillisecond_of_whole (h.before hsorted)
    (hwhole last (List.mem_of_mem_filter (mem_sortedBy.1 h.last_mem)))

end Pages

/-! ### Lists that are shown, and lists that are not -/

/-- Three conversations: one without messages, and two that are a second apart. -/
def secondApart : ConversationTable ℕ where
  rows := [{ id := 1, lastMessageAt := some 1000000 }, { id := 2, lastMessageAt := none },
    { id := 3, lastMessageAt := some 2000000, needsHumanAttention := true }]
  ids_nodup := by decide

/-- In pages of one conversation, no millisecond is split. -/
theorem conversation_pages_complete_second :
    PagesShow (inboxPage {} secondApart { limit := some 1 })
        (inboxList {} secondApart { limit := some 1 } none) ∧
      PagesShow (queuePage {} secondApart { limit := some 1 })
        (queueList {} secondApart { limit := some 1 } none) := by
  have hvalid : ({ limit := some 1 } : ListInput ℕ).sinceDate {} = .ok none := rfl
  have hwhole : ∀ row ∈ secondApart.rows, ∀ t ∈ row.lastMessageAt, t % 1000 = 0 := by
    decide +kernel
  obtain ⟨hinbox, hqueue, -⟩ := @conversation_pages_complete _ _ {} secondApart _ _ hvalid
  exact ⟨hinbox.2 fun _ _ => inbox_whole hwhole, hqueue.2 fun _ _ => queue_whole hwhole⟩

/-- A conversation that needs attention, and a later one that does not. -/
def attentionFirst : ConversationTable ℕ where
  rows := [{ id := 1, lastMessageAt := some 1000000, needsHumanAttention := true },
    { id := 2, lastMessageAt := some 2000000 }]
  ids_nodup := by decide

/-- Two conversations of one millisecond. -/
def sameMillisecond : ConversationTable ℕ where
  rows := [{ id := 1, lastMessageAt := some 1500 }, { id := 2, lastMessageAt := some 1200 }]
  ids_nodup := by decide

/-- **Lists that are not shown**, in pages of one conversation: an end user's list in which the one
that needs attention is not the latest, and two conversations of one millisecond. -/
theorem conversation_pages_skip :
    ¬ PagesShow (endUserPage {} attentionFirst none (some 1)) (endUserList {} attentionFirst none) ∧
      ¬ PagesShow (inboxPage {} sameMillisecond { limit := some 1 })
        (inboxList {} sameMillisecond { limit := some 1 } none) ∧
      ¬ PagesShow (queuePage {} sameMillisecond { limit := some 1 })
        (queueList {} sameMillisecond { limit := some 1 } none) := by
  have hvalid : ({ limit := some 1 } : ListInput ℕ).sinceDate {} = .ok none := rfl
  refine ⟨fun h => ?_, fun h => ?_, fun h => ?_⟩
  · have hbreak := (endUserPages_iff none (some 1)).1 h 1 (by decide +kernel)
      ⟨some 1000, 1, some true⟩
      (by decide +kernel)
    have hnext := hbreak.next { id := 2, lastMessageAt := some 2000000 } (by decide +kernel)
    exact absurd hnext (by decide +kernel)
  · have hsplit := (inboxPages_iff hvalid).1 h { id := 1, lastMessageAt := some 1500 }
      { id := 2, lastMessageAt := some 1200 } ⟨1, by decide +kernel, by decide +kernel⟩ rfl
    exact absurd hsplit (by decide +kernel)
  · have hsplit := (queuePages_iff hvalid).1 h { id := 1, lastMessageAt := some 1500 }
      { id := 2, lastMessageAt := some 1200 } ⟨1, by decide +kernel, by decide +kernel⟩
    exact absurd hsplit (by decide +kernel)

end Munin
