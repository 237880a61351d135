import Munin.Conversations.ImapDownloads
import Munin.Foundations.Machine
import Mathlib.Data.List.Induction

/-!
# Polling a mailbox

A channel keeps a cursor, the last uid that it is done with. The first poll anchors it in the
mailbox; each poll downloads the first messages beyond it, and goes through them in order: it skips
what is over the size limit or cannot be parsed, ingests the others, and stops at one that cannot be
ingested. The cursor follows.

* **`anchor`** — where the first poll begins.
* **`processEntries`** — the loop over the messages of a poll.
* **`ImapState.poll`** — the rest of `pollOne`.
* **`ImapMove`, `imapMachine`** — messages arrive, and the channel is polled.
* **`LosesNothing`** — what is claimed of the states that are reached.
* **`polling_loses_nothing`** — it is so, if the server answers from its mailbox.
* **`retry_refused`** — a message whose ingestion failed is not tried again by a poll whose download
  fails as a whole.
-/

namespace Munin

open Foundations

/-- `MAX_MESSAGES_PER_TICK`. -/
def maxMessagesPerTick : ℕ := 100

/-- What is stored of a channel's position. -/
structure ImapCursor where
  lastUid : Option ℕ := none
  uidValidity : Option String := none

structure ImapAnchor where
  uidValidity : String
  lastUid : ℕ

/-- The position from which a channel is polled: before the first message that is listed, from the
lowest that was found on, and is not older than `since'`; or at the end. -/
def anchor (uidValidity : String) (uidNext : ℕ) (since' : Option ℕ) (searched : List ℕ)
    (listed : List (ℕ × Option ℕ)) : ImapAnchor :=
  let atEnd := ⟨uidValidity, uidNext - 1⟩
  match since', searched with
  | none, _ | some _, [] => atEnd
  | some since', uid :: uids =>
    let lowest := uids.foldl min uid
    match listed.find? fun msg => lowest ≤ msg.1 && msg.2.all (since' ≤ ·) with
    | some msg => ⟨uidValidity, msg.1 - 1⟩
    | none => atEnd

/-- A message of a poll, or one that is left aside. -/
structure ImapEntry where
  uid : ℕ
  msg : Option ImapMessageMin
  size : Option ℕ

/-- The entries of a poll, in the order of their uids. -/
def ImapFetchResult.entries (fetched : ImapFetchResult) : List ImapEntry :=
  let messages : List ImapEntry := fetched.messages.map fun msg => ⟨msg.uid, some msg, none⟩
  let skipped : List ImapEntry := fetched.oversized.map fun skip => ⟨skip.uid, none, skip.size⟩
  sortByUid (·.uid) (messages ++ skipped)

/-- What becomes of a message. -/
inductive InboundEvent where
  | ingested (uid : ℕ)
  | oversized (uid : ℕ)
  | unparsed (uid : ℕ)
  | failed (uid : ℕ)
  deriving DecidableEq

/-- What a poll has done so far. -/
structure PollProgress where
  highWater : ℕ
  ingested : ℕ := 0
  lastError : Option String := none
  stalled : Bool := false
  events : List InboundEvent := []

/-- The loop of `pollOne`, with the errors that `parseMessage` and `ingest` throw, if any. -/
def processEntries (parse ingest : ℕ → Option String) :
    List ImapEntry → PollProgress → PollProgress
  | [], p => p
  | entry :: rest, p =>
    match entry.msg with
    | none => processEntries parse ingest rest { p with
        highWater := max p.highWater entry.uid
        lastError := some ("skipped uid=" ++ toString entry.uid ++ ": message of " ++
          entry.size.elim "unknown" toString ++ " bytes exceeds the " ++
          toString imapMaxMessageBytes ++ "-byte inbound limit")
        events := p.events ++ [.oversized entry.uid] }
    | some msg =>
      match parse msg.uid with
      | some err => processEntries parse ingest rest { p with
          highWater := max p.highWater msg.uid
          lastError := some err
          events := p.events ++ [.unparsed msg.uid] }
      | none =>
        match ingest msg.uid with
        | some err => { p with
            lastError := some err
            stalled := true
            events := p.events ++ [.failed msg.uid] }
        | none => processEntries parse ingest rest { p with
            highWater := max p.highWater msg.uid
            ingested := p.ingested + 1
            events := p.events ++ [.ingested msg.uid] }

structure PollTickResult where
  messagesIngested : ℕ
  lastError : Option String := none
  stalled : Bool := false

/-- The mailbox, the cursor of the channel, where it was anchored, and what became of the
messages. -/
structure ImapState where
  mailbox : List ImapMessage
  uidNext : ℕ
  uidValidity : String
  cursor : ImapCursor := {}
  anchored : Option ℕ := none
  events : List InboundEvent := []

namespace ImapState

/-- The cursor is written to an anchor. -/
def anchorAt (s : ImapState) (a : ImapAnchor) : ImapState :=
  { s with cursor := ⟨some a.lastUid, some a.uidValidity⟩, anchored := some a.lastUid }

/-- `pollOne`, once there is a cursor. It throws if the download does. -/
def poll (s : ImapState) (sinceUid : ℕ) (sized : List ImapSizedUid) (sent : List ImapSent)
    (parse ingest : ℕ → Option String) : Except String (ImapState × PollTickResult) :=
  (fetchSince sinceUid s.cursor.uidValidity maxMessagesPerTick s.uidValidity sized sent).map
    fun fetched =>
      if s.cursor.uidValidity.any (· ≠ fetched.uidValidity) then
        (s.anchorAt (anchor s.uidValidity s.uidNext none [] []), ⟨0, none, false⟩)
      else if fetched.entries = [] then
        ({ s with cursor := ⟨some sinceUid, some fetched.uidValidity⟩ }, ⟨0, none, false⟩)
      else
        let p := processEntries parse ingest fetched.entries { highWater := sinceUid }
        ({ s with
            cursor := ⟨some p.highWater, some fetched.uidValidity⟩
            events := s.events ++ p.events },
          ⟨p.ingested, p.lastError, p.stalled⟩)

end ImapState

/-- A message arrives; or the channel is polled. A poll that finds no cursor is an anchoring and
then a poll. -/
inductive ImapMove where
  | arrive (m : ImapMessage)
  | anchor (since' : Option ℕ) (searched : List ℕ) (listed : List (ℕ × Option ℕ))
  | poll (sized : List ImapSizedUid) (sent : List ImapSent) (parse ingest : ℕ → Option String)

/-- One move. The server gives each message a uid that is higher than the ones before, and a poll
that throws leaves everything as it was. -/
def ImapState.step (s : ImapState) : ImapMove → Option ImapState
  | .arrive m =>
    if s.uidNext ≤ m.uid then
      some { s with mailbox := s.mailbox ++ [m], uidNext := m.uid + 1 }
    else none
  | .anchor since' searched listed =>
    if s.cursor.lastUid = none then
      some (s.anchorAt (Munin.anchor s.uidValidity s.uidNext since' searched listed))
    else none
  | .poll sized sent parse ingest =>
    s.cursor.lastUid.map fun sinceUid =>
      match s.poll sinceUid sized sent parse ingest with
      | .ok (s', _) => s'
      | .error _ => s

/-- A mailbox with one validity, and the channel that is polled from it. -/
def imapMachine : Machine ImapState ImapMove :=
  ⟨ImapState.step⟩

/-- The mailbox as it is when the channel is activated. -/
def ImapState.Started (s : ImapState) : Prop :=
  (s.mailbox.map (·.uid)).Pairwise (· < ·) ∧ (∀ m ∈ s.mailbox, m.uid < s.uidNext) ∧ 0 < s.uidNext ∧
    s.cursor = {} ∧ s.anchored = none ∧ s.events = []

/-- The server answers from its mailbox, and sends the source of each message that it lists. -/
def Answers (s : ImapState) : ImapMove → Prop
  | .arrive _ => True
  | .anchor _ _ listed => ∀ msg ∈ listed, msg.1 < s.uidNext
  | .poll sized sent _ _ => ∀ sinceUid ∈ s.cursor.lastUid, Lists s.mailbox sinceUid sized ∧
    Sends s.mailbox ((planImapDownloads sized
      (fetchOptions sinceUid maxMessagesPerTick)).fetch.map (·.uid)) sent

/-- The message was ingested, could not be parsed, or is over the size limit. -/
def Accounted (events : List InboundEvent) (m : ImapMessage) : Prop :=
  .ingested m.uid ∈ events ∨ .unparsed m.uid ∈ events ∨ (.oversized m.uid ∈ events ∧ m.Oversized)

/-- The uids that were ingested, in their order. -/
def ingestedUids (events : List InboundEvent) : List ℕ :=
  events.filterMap fun
    | .ingested uid => some uid
    | _ => none

/-- The event is that the message was tried. -/
def Tried (uid : ℕ) (event : InboundEvent) : Prop :=
  event = .ingested uid ∨ event = .unparsed uid ∨ event = .failed uid

/-- What is claimed: from where it was anchored on, the cursor has passed what is accounted for
only; the uids are ingested in increasing order; and after a message whose ingestion failed, the
next poll tries that message first, unless its download fails as a whole. -/
structure LosesNothing (s : ImapState) : Prop where
  accounted : ∀ m ∈ s.mailbox, ∀ a ∈ s.anchored, ∀ c ∈ s.cursor.lastUid, a < m.uid → m.uid ≤ c →
    Accounted s.events m
  increasing : (ingestedUids s.events).Pairwise (· < ·)
  retried : ∀ uid, s.events.getLast? = some (.failed uid) → ∀ sized sent parse ingest s',
    Answers s (.poll sized sent parse ingest) → s.step (.poll sized sent parse ingest) = some s' →
      (∃ event rest, Tried uid event ∧ s'.events = s.events ++ event :: rest) ∨
        ∃ sinceUid e, s.poll sinceUid sized sent parse ingest = .error e ∧ s' = s

/-! ### One poll -/

/-- What becomes of an entry. -/
def ImapEntry.outcome (parse ingest : ℕ → Option String) (entry : ImapEntry) : InboundEvent :=
  if entry.msg.isNone then .oversized entry.uid
  else if (parse entry.uid).isSome then .unparsed entry.uid
  else if (ingest entry.uid).isSome then .failed entry.uid
  else .ingested entry.uid

/-- The loop goes on after the entry. -/
def ImapEntry.settles (parse ingest : ℕ → Option String) (entry : ImapEntry) : Bool :=
  entry.msg.isNone || (parse entry.uid).isSome || (ingest entry.uid).isNone

section Poll

variable {parse ingest : ℕ → Option String}

/-- The loop settles entries as long as it can, and stops with the one that fails. -/
theorem processEntries_eq {entries : List ImapEntry}
    (h : ∀ entry ∈ entries, ∀ msg ∈ entry.msg, msg.uid = entry.uid) (p : PollProgress) :
    ∃ settled rest, entries = settled ++ rest ∧
      (∀ entry ∈ settled, entry.settles parse ingest = true) ∧
      (∀ entry ∈ rest.head?, entry.settles parse ingest = false) ∧
      (processEntries parse ingest entries p).highWater =
        (settled.map (·.uid)).foldl max p.highWater ∧
      (processEntries parse ingest entries p).events = p.events ++
        (settled ++ rest.head?.toList).map (ImapEntry.outcome parse ingest) := by
  induction entries generalizing p with
  | nil => exact ⟨[], [], rfl, nofun, nofun, rfl, by simp [processEntries]⟩
  | cons entry entries ih =>
    have hrest := fun e he => h e (List.mem_cons_of_mem _ he)
    -- an entry that is settled, and then the others
    have hgo : ∀ q : PollProgress, q.highWater = max p.highWater entry.uid →
        q.events = p.events ++ [entry.outcome parse ingest] →
        entry.settles parse ingest = true →
        ∃ settled rest, entry :: entries = settled ++ rest ∧
          (∀ entry ∈ settled, entry.settles parse ingest = true) ∧
          (∀ entry ∈ rest.head?, entry.settles parse ingest = false) ∧
          (processEntries parse ingest entries q).highWater =
            (settled.map (·.uid)).foldl max p.highWater ∧
          (processEntries parse ingest entries q).events = p.events ++
            (settled ++ rest.head?.toList).map (ImapEntry.outcome parse ingest) := by
      intro q hwater hevents hsettles
      obtain ⟨settled, rest, rfl, hall, hstop, hhigh, hlog⟩ := ih hrest q
      refine ⟨entry :: settled, rest, rfl, fun e he => ?_, hstop, ?_, ?_⟩
      · rcases List.mem_cons.1 he with rfl | he
        · exact hsettles
        · exact hall e he
      · rw [hhigh, hwater, List.map_cons, List.foldl_cons]
      · rw [hlog, hevents, List.append_assoc, List.singleton_append, List.cons_append,
          List.map_cons]
    rw [processEntries]
    split
    · rename_i hnone
      refine hgo _ rfl ?_ ?_
      · simp [ImapEntry.outcome, hnone]
      · simp [ImapEntry.settles, hnone]
    · rename_i msg hmsg
      have huid : msg.uid = entry.uid := h entry List.mem_cons_self msg hmsg
      rw [huid]
      split
      · rename_i err hparse
        refine hgo _ rfl ?_ ?_
        · simp [ImapEntry.outcome, hmsg, hparse]
        · simp [ImapEntry.settles, hparse]
      · rename_i hparse
        split
        · rename_i err hingest
          refine ⟨[], entry :: entries, rfl, nofun, fun e he => ?_, rfl, ?_⟩
          · obtain rfl := Option.some.inj he
            simp [ImapEntry.settles, hmsg, hparse, hingest]
          · simp [ImapEntry.outcome, hmsg, hparse, hingest]
        · rename_i hingest
          refine hgo _ rfl ?_ ?_
          · simp [ImapEntry.outcome, hmsg, hparse, hingest]
          · simp [ImapEntry.settles, hingest]

/-- The high water is where the cursor should be. -/
theorem foldl_max_eq_advance {items batch : List ℕ} {cursor : ℕ}
    (h : FirstBeyond items cursor batch) : batch.foldl max cursor = advance cursor batch := by
  induction batch using List.reverseRecOn with
  | nil => rfl
  | append_singleton as u ih =>
    obtain ⟨hlt, -⟩ := h.next
    rw [List.foldl_append, ih h.of_append, advance_concat]
    exact max_eq_right (le_of_lt hlt)

/-- The entries have the uids of the result, in order. -/
theorem map_entries (fetched : ImapFetchResult) : fetched.entries.map (·.uid) = fetched.uids := by
  have hperm : (fetched.entries.map (·.uid)).Perm fetched.uids := by
    refine ((sortByUid_perm _ _).map _).trans (List.Perm.trans ?_ (List.mergeSort_perm _ _).symm)
    rw [List.map_append, List.map_map, List.map_map]
    exact .refl _
  exact hperm.eq_of_pairwise' (sortByUid_pairwise _ _) (List.pairwise_mergeSort' (· ≤ ·) _)

variable {entry : ImapEntry}

variable {fetched : ImapFetchResult}

theorem mem_entries :
    entry ∈ fetched.entries ↔ (∃ msg ∈ fetched.messages, ⟨msg.uid, some msg, none⟩ = entry) ∨
      ∃ skip ∈ fetched.oversized, ⟨skip.uid, none, skip.size⟩ = entry := by
  rw [ImapFetchResult.entries, (sortByUid_perm _ _).mem_iff, List.mem_append, List.mem_map,
    List.mem_map]

theorem uid_of_mem_entries
    (h : entry ∈ fetched.entries) : ∀ msg ∈ entry.msg, msg.uid = entry.uid := by
  intro msg hmsg
  rcases mem_entries.1 h with ⟨m, -, rfl⟩ | ⟨skip, -, rfl⟩
  · obtain rfl := Option.some.inj hmsg
    rfl
  · cases hmsg

/-- The outcome of an entry that is settled is one for which the cursor may pass. -/
theorem outcome_of_settles (h : entry.settles parse ingest = true) :
    (entry.msg = none ∧ entry.outcome parse ingest = .oversized entry.uid) ∨
      (entry.msg ≠ none ∧ (entry.outcome parse ingest = .unparsed entry.uid ∨
        entry.outcome parse ingest = .ingested entry.uid)) := by
  obtain ⟨uid, msg, size⟩ := entry
  cases msg with
  | none => exact .inl ⟨rfl, rfl⟩
  | some msg =>
    refine .inr ⟨Option.some_ne_none msg, ?_⟩
    rw [ImapEntry.settles, Option.isNone_some, Bool.false_or] at h
    rw [ImapEntry.outcome, Option.isNone_some, if_neg Bool.false_ne_true]
    by_cases hparse : (parse uid).isSome = true
    · exact .inl (if_pos hparse)
    · have hingest : ¬ (ingest uid).isSome = true := by
        rw [Bool.not_eq_true] at hparse
        rw [hparse, Bool.false_or] at h
        rw [Option.isNone_iff_eq_none.1 h]
        exact Bool.false_ne_true
      exact .inr (by rw [if_neg hparse, if_neg hingest])

/-- An entry that is not settled is a message whose ingestion failed. -/
theorem outcome_of_not_settles (h : entry.settles parse ingest = false) :
    entry.msg ≠ none ∧ entry.outcome parse ingest = .failed entry.uid := by
  obtain ⟨uid, msg, size⟩ := entry
  rw [ImapEntry.settles, Bool.or_eq_false_iff, Bool.or_eq_false_iff] at h
  obtain ⟨⟨hmsg, hparse⟩, hingest⟩ := h
  refine ⟨fun hnone => ?_, ?_⟩
  · rw [hnone] at hmsg
    cases hmsg
  · rw [ImapEntry.outcome, hmsg, hparse, ← Option.not_isNone, hingest]
    rfl

end Poll

/-! ### What the moves keep -/

/-- The invariant. -/
structure PollingOk (s : ImapState) : Prop where
  ascending : (s.mailbox.map (·.uid)).Pairwise (· < ·)
  below : ∀ m ∈ s.mailbox, m.uid < s.uidNext
  next : 0 < s.uidNext
  valid : ∀ v ∈ s.cursor.uidValidity, v = s.uidValidity
  cursor : ∀ c ∈ s.cursor.lastUid, c < s.uidNext
  accounted : ∀ m ∈ s.mailbox, ∀ a ∈ s.anchored, ∀ c ∈ s.cursor.lastUid, a < m.uid → m.uid ≤ c →
    Accounted s.events m
  increasing : (ingestedUids s.events).Pairwise (· < ·)
  passed : ∀ uid ∈ ingestedUids s.events, ∃ c ∈ s.cursor.lastUid, uid ≤ c
  unanchored : s.cursor.lastUid = none → s.events = []
  stopped : ∀ uid, s.events.getLast? = some (.failed uid) → ∃ c ∈ s.cursor.lastUid, c < uid ∧
    (∃ m ∈ s.mailbox, m.uid = uid ∧ ¬ m.Oversized) ∧ ∀ m ∈ s.mailbox, c < m.uid → uid ≤ m.uid

section Keeps

variable {s s' : ImapState}

/-- A uid is that of one message. -/
theorem PollingOk.inj (hs : PollingOk s) : ∀ m ∈ s.mailbox, ∀ m' ∈ s.mailbox, m.uid = m'.uid →
    m = m' := by
  have hnodup : (s.mailbox.map (·.uid)).Nodup := hs.ascending.imp fun h => Nat.ne_of_lt h
  exact fun m hm m' hm' h => List.inj_on_of_nodup_map hnodup hm hm' h

variable {m : ImapMessage} {sized : List ImapSizedUid} {sent : List ImapSent}
  {result : PollTickResult}

/-- A message that arrives is beyond everything. -/
theorem PollingOk.arrive (hs : PollingOk s) (h : s.step (.arrive m) = some s') : PollingOk s' := by
  rw [ImapState.step] at h
  split at h
  · rename_i huid
    obtain rfl := Option.some.inj h
    have hold : ∀ {n : ImapMessage}, n ∈ s.mailbox ++ [m] → n ∈ s.mailbox ∨ n = m := fun hn =>
      (List.mem_append.1 hn).imp_right List.mem_singleton.1
    refine ⟨?_, fun n hn => ?_, Nat.succ_pos _, hs.valid, fun c hc => ?_,
      fun n hn a ha c hc hlt hle => ?_, hs.increasing, hs.passed, hs.unanchored,
      fun uid hlast => ?_⟩
    · rw [List.map_append, List.pairwise_append]
      refine ⟨hs.ascending, List.pairwise_singleton _ _, fun uid hmem uid' hmem' => ?_⟩
      obtain ⟨n, hn, rfl⟩ := List.mem_map.1 hmem
      obtain rfl := List.mem_singleton.1 hmem'
      exact lt_of_lt_of_le (hs.below n hn) huid
    · rcases hold hn with hn | rfl
      · have hlt := hs.below n hn
        change n.uid < m.uid + 1
        omega
      · exact Nat.lt_succ_self _
    · have hlt := hs.cursor c hc
      change c < m.uid + 1
      omega
    · rcases hold hn with hn | rfl
      · exact hs.accounted n hn a ha c hc hlt hle
      · have hbelow := hs.cursor c hc
        omega
    · obtain ⟨c, hc, hlt, ⟨n, hn, hfailed⟩, hfirst⟩ := hs.stopped uid hlast
      refine ⟨c, hc, hlt, ⟨n, List.mem_append_left _ hn, hfailed⟩, fun n' hn' hbeyond => ?_⟩
      rcases hold hn' with hn' | rfl
      · exact hfirst n' hn' hbeyond
      · have hbelow := hs.below n hn
        omega
  · cases h

variable {listed : List (ℕ × Option ℕ)} {sinceUid : ℕ} {parse ingest : ℕ → Option String}

theorem anchor_lt {validity : String} {uidNext : ℕ} (hnext : 0 < uidNext) {since' : Option ℕ}
    {searched : List ℕ} (h : ∀ msg ∈ listed, msg.1 < uidNext) :
    (anchor validity uidNext since' searched listed).lastUid < uidNext := by
  rw [anchor.eq_def]
  dsimp only
  split
  · exact Nat.sub_lt hnext Nat.one_pos
  · exact Nat.sub_lt hnext Nat.one_pos
  · split
    · rename_i msg hfind
      have hlt := h msg (List.mem_of_find?_eq_some hfind)
      dsimp only
      omega
    · exact Nat.sub_lt hnext Nat.one_pos

/-- Where a channel is anchored, nothing has happened yet. -/
theorem PollingOk.anchor (hs : PollingOk s) {since' : Option ℕ} {searched : List ℕ}
    (hanswers : Answers s (.anchor since' searched listed))
    (h : s.step (.anchor since' searched listed) = some s') : PollingOk s' := by
  rw [ImapState.step] at h
  split at h
  · rename_i hnone
    obtain rfl := Option.some.inj h
    have hevents := hs.unanchored hnone
    refine ⟨hs.ascending, hs.below, hs.next, fun v hv => ?_, fun c hc => ?_,
      fun m _ a ha c hc hlt hle => ?_, hs.increasing, fun uid huid => ?_, nofun,
      fun uid hlast => ?_⟩
    · obtain rfl := Option.some.inj hv
      rw [Munin.anchor.eq_def]
      dsimp only
      split
      · rfl
      · rfl
      · split
        · rfl
        · rfl
    · obtain rfl := Option.some.inj hc
      exact anchor_lt hs.next hanswers
    · obtain rfl := Option.some.inj ha
      obtain rfl := Option.some.inj hc
      omega
    · have hmem : uid ∈ ingestedUids s.events := huid
      rw [hevents] at hmem
      cases hmem
    · have hlast' : s.events.getLast? = some (.failed uid) := hlast
      rw [hevents] at hlast'
      cases hlast'
  · cases h

/-- What a poll does whose download does not fail: it settles the first messages beyond the cursor,
and then stops, or has settled all. -/
theorem PollingOk.poll_eq (hs : PollingOk s) (hlists : Lists s.mailbox sinceUid sized)
    (hsends : Sends s.mailbox ((planImapDownloads sized
      (fetchOptions sinceUid maxMessagesPerTick)).fetch.map (·.uid)) sent) (h : s.poll sinceUid
    sized sent parse ingest = .ok (s', result)) :
    ∃ fetched settled rest, FetchesFirst s.mailbox sinceUid fetched ∧
      fetched.entries = settled ++ rest ∧
      (∀ entry ∈ settled, entry.settles parse ingest = true) ∧
      (∀ entry ∈ rest.head?, entry.settles parse ingest = false) ∧
      s' = { s with
        cursor := ⟨some (advance sinceUid (settled.map (·.uid))), some s.uidValidity⟩
        events := s.events ++
          (settled ++ rest.head?.toList).map (ImapEntry.outcome parse ingest) } := by
  rw [ImapState.poll] at h
  cases hfetch : fetchSince sinceUid s.cursor.uidValidity maxMessagesPerTick s.uidValidity sized
      sent with
  | error e =>
    rw [hfetch] at h
    cases h
  | ok fetched =>
    obtain ⟨hvalidity, hfirst⟩ :=
      fetch_first hs.valid (by decide) hs.inj hlists hsends hfetch
    have hsame : s.cursor.uidValidity.any (· ≠ fetched.uidValidity) = false := by
      rw [← Bool.not_eq_true, Option.any_eq_true]
      rintro ⟨v, hv, hne⟩
      exact of_decide_eq_true hne ((hs.valid v hv).trans hvalidity.symm)
    rw [hfetch] at h
    have hpoll := Except.ok.inj h
    dsimp only at hpoll
    rw [hsame, if_neg Bool.false_ne_true] at hpoll
    split at hpoll
    · rename_i hnone
      obtain ⟨rfl, -⟩ := Prod.mk.inj hpoll
      refine ⟨fetched, [], [], hfirst, hnone, nofun, nofun, ?_⟩
      rw [hvalidity]
      simp
    · obtain ⟨rfl, -⟩ := Prod.mk.inj hpoll
      obtain ⟨settled, rest, hentries, hall, hstop, hhigh, hevents⟩ :=
        @processEntries_eq parse ingest _ (fun entry hentry => uid_of_mem_entries hentry)
          { highWater := sinceUid }
      have hbatch : FirstBeyond (s.mailbox.map (·.uid)) sinceUid
          (settled.map (·.uid) ++ rest.map (·.uid)) := by
        rw [← List.map_append, ← hentries, map_entries]
        exact hfirst.first
      refine ⟨fetched, settled, rest, hfirst, hentries, hall, hstop, ?_⟩
      rw [hhigh, hevents, foldl_max_eq_advance hbatch.of_append, hvalidity, List.nil_append]

/-- What a settled entry of a poll accounts for. -/
theorem accounted_of_settled {fetched : ImapFetchResult}
    (hinj : ∀ m ∈ s.mailbox, ∀ m' ∈ s.mailbox, m.uid = m'.uid → m = m')
    (hfirst : FetchesFirst s.mailbox sinceUid fetched)
    {entry : ImapEntry} (hentry : entry ∈ fetched.entries)
    (hsettles : entry.settles parse ingest = true) (hm : m ∈ s.mailbox)
    (huid : entry.uid = m.uid) {events : List InboundEvent}
    (hmem : entry.outcome parse ingest ∈ events) : Accounted events m := by
  rcases outcome_of_settles hsettles with ⟨hnone, houtcome⟩ | ⟨-, houtcome | houtcome⟩
  · rw [houtcome, huid] at hmem
    refine .inr (.inr ⟨hmem, ?_⟩)
    rcases mem_entries.1 hentry with ⟨msg, -, rfl⟩ | ⟨skip, hskip, rfl⟩
    · cases hnone
    · obtain ⟨n, hn, hsame, hlarge⟩ := hfirst.oversized skip hskip
      exact hinj n hn m hm (hsame.trans huid) ▸ hlarge
  · rw [houtcome, huid] at hmem
    exact .inr (.inl hmem)
  · rw [houtcome, huid] at hmem
    exact .inl hmem

theorem ingestedUids_append (as bs : List InboundEvent) :
    ingestedUids (as ++ bs) = ingestedUids as ++ ingestedUids bs :=
  List.filterMap_append

/-- What a poll ingests are entries that it has settled, in their order. -/
theorem ingestedUids_outcomes {settled rest : List ImapEntry}
    (hstop : ∀ entry ∈ rest.head?, entry.settles parse ingest = false) :
    (ingestedUids ((settled ++ rest.head?.toList).map (ImapEntry.outcome parse ingest))).Sublist
      (settled.map (·.uid)) := by
  have hrest : ingestedUids (rest.head?.toList.map (ImapEntry.outcome parse ingest)) = [] := by
    cases hhead : rest.head? with
    | none => rfl
    | some entry =>
      obtain ⟨-, houtcome⟩ := outcome_of_not_settles (hstop entry hhead)
      rw [Option.toList_some, List.map_singleton, houtcome]
      rfl
  rw [List.map_append, ingestedUids_append, hrest, List.append_nil]
  have huid : ∀ entry : ImapEntry, ∀ uid,
      (match entry.outcome parse ingest with
        | .ingested uid => some uid
        | _ => none) = some uid → uid = entry.uid := by
    intro entry uid h
    rw [ImapEntry.outcome] at h
    split_ifs at h
    exact (Option.some.inj h).symm
  induction settled with
  | nil => exact List.Sublist.refl _
  | cons entry settled ih =>
    rw [List.map_cons, List.map_cons, ingestedUids, List.filterMap_cons]
    split
    · exact ih.cons _
    · rename_i uid hsome
      rw [huid entry uid hsome]
      exact ih.cons_cons _

/-- A poll keeps the invariant. -/
theorem PollingOk.poll (hs : PollingOk s) (hcursor : s.cursor.lastUid = some sinceUid)
    (hlists : Lists s.mailbox sinceUid sized) (hsends : Sends s.mailbox ((planImapDownloads sized
      (fetchOptions sinceUid maxMessagesPerTick)).fetch.map (·.uid)) sent) (h : s.poll sinceUid
    sized sent parse ingest = .ok (s', result)) :
    PollingOk s' := by
  obtain ⟨fetched, settled, rest, hfetched, hentries, hall, hstop, rfl⟩ :=
    hs.poll_eq hlists hsends h
  have hbatch : FirstBeyond (s.mailbox.map (·.uid)) sinceUid
      (settled.map (·.uid) ++ rest.map (·.uid)) := by
    rw [← List.map_append, ← hentries, map_entries]
    exact hfetched.first
  have hsettled := hbatch.of_append
  have hforward : sinceUid ≤ advance sinceUid (settled.map (·.uid)) := hsettled.le_advance_self
  have hinorder : (ingestedUids ((settled ++ rest.head?.toList).map
      (ImapEntry.outcome parse ingest))).Sublist (settled.map (·.uid)) :=
    ingestedUids_outcomes hstop
  refine ⟨hs.ascending, hs.below, hs.next, ?_, ?_, ?_, ?_, ?_, nofun, ?_⟩
  · rintro v ⟨⟩
    rfl
  · rintro c ⟨⟩
    rcases (settled.map (·.uid)).eq_nil_or_concat with hnil | ⟨as, last, hlast⟩
    · rw [hnil]
      exact hs.cursor sinceUid hcursor
    · rw [List.concat_eq_append] at hlast
      rw [hlast] at hsettled ⊢
      rw [advance_concat]
      obtain ⟨hmem, -⟩ := hsettled.mem (List.mem_append_right _ List.mem_cons_self)
      obtain ⟨m, hm, huid⟩ := List.mem_map.1 hmem
      exact huid ▸ hs.below m hm
  · rintro m hm a ha c ⟨⟩ hlt hle
    rcases le_or_gt m.uid sinceUid with hbefore | hbeyond
    · rcases hs.accounted m hm a ha sinceUid hcursor hlt hbefore with h | h | ⟨h, hlarge⟩
      · exact .inl (List.mem_append_left _ h)
      · exact .inr (.inl (List.mem_append_left _ h))
      · exact .inr (.inr ⟨List.mem_append_left _ h, hlarge⟩)
    · have hmem := hsettled.mem_of_le_advance (List.mem_map_of_mem hm) hbeyond hle
      obtain ⟨entry, hentry, huid⟩ := List.mem_map.1 hmem
      refine accounted_of_settled hs.inj hfetched (hentries ▸ List.mem_append_left _ hentry)
        (hall entry hentry) hm huid ?_
      exact List.mem_append_right _ (List.mem_map_of_mem (List.mem_append_left _ hentry))
  · rw [ingestedUids_append, List.pairwise_append]
    refine ⟨hs.increasing, hsettled.ascending.sublist hinorder, fun uid huid uid' huid' => ?_⟩
    obtain ⟨c, hc, hle⟩ := hs.passed uid huid
    obtain rfl := Option.some.inj (hcursor.symm.trans hc)
    exact lt_of_le_of_lt hle (hsettled.mem (hinorder.subset huid')).2
  · intro uid huid
    rw [ingestedUids_append, List.mem_append] at huid
    refine ⟨_, rfl, ?_⟩
    rcases huid with huid | huid
    · obtain ⟨c, hc, hle⟩ := hs.passed uid huid
      obtain rfl := Option.some.inj (hcursor.symm.trans hc)
      exact hle.trans hforward
    · exact hsettled.le_advance (hinorder.subset huid)
  · intro uid hlast
    refine ⟨_, rfl, ?_⟩
    cases rest with
    | cons entry rest =>
      -- the poll has stopped at this entry
      obtain ⟨hmsg, houtcome⟩ := outcome_of_not_settles (hstop entry rfl)
      have hfailed : uid = entry.uid := by
        simp [houtcome] at hlast
        exact hlast.symm
      subst hfailed
      obtain ⟨hlt, hnext⟩ := hbatch.next
      refine ⟨hlt, ?_, fun m hm hbeyond => hnext _ (List.mem_map_of_mem hm) hbeyond⟩
      have hentry : entry ∈ fetched.entries :=
        hentries ▸ List.mem_append_right _ List.mem_cons_self
      rcases mem_entries.1 hentry with ⟨msg, hmem, rfl⟩ | ⟨skip, -, rfl⟩
      · exact hfetched.messages msg hmem
      · exact absurd rfl hmsg
    | nil =>
      rcases settled.eq_nil_or_concat with rfl | ⟨before, entry, rfl⟩
      · -- there was nothing to do
        have hbefore : s.events.getLast? = some (.failed uid) := by simpa using hlast
        obtain ⟨c, hc, hstopped⟩ := hs.stopped uid hbefore
        obtain rfl := Option.some.inj (hcursor.symm.trans hc)
        exact hstopped
      · exfalso
        rw [List.concat_eq_append] at hall
        simp only [List.concat_eq_append, List.head?_nil, Option.toList_none, List.append_nil,
          List.map_append, List.map_singleton, ← List.append_assoc, List.getLast?_concat,
          Option.some.injEq] at hlast
        rcases outcome_of_settles (hall entry (by simp)) with ⟨-, h⟩ | ⟨-, h | h⟩ <;>
          rw [hlast] at h <;> cases h

theorem PollingOk.step (hs : PollingOk s) {a : ImapMove} (hanswers : Answers s a)
    (h : s.step a = some s') : PollingOk s' := by
  cases a with
  | arrive m => exact hs.arrive h
  | anchor since' searched listed => exact hs.anchor hanswers h
  | poll sized sent parse ingest =>
    obtain ⟨sinceUid, hcursor, hpoll⟩ := Option.map_eq_some_iff.1 h
    obtain ⟨hlists, hsends⟩ := hanswers sinceUid hcursor
    cases hresult : s.poll sinceUid sized sent parse ingest with
    | error e =>
      rw [hresult] at hpoll
      exact hpoll ▸ hs
    | ok r =>
      rw [hresult] at hpoll
      obtain ⟨u, result⟩ := r
      obtain rfl : u = s' := hpoll
      exact hs.poll hcursor hlists hsends hresult

end Keeps

theorem pollingOk_of_reaches {s : ImapState}
    (h : imapMachine.Reaches ImapState.Started Answers s) : PollingOk s := by
  refine h.invariant ?_ fun u v a _ hu hok hstep => hu.step hok hstep
  rintro u ⟨hascending, hbelow, hnext, hcursor, hanchored, hevents⟩
  refine ⟨hascending, hbelow, hnext, ?_, ?_, ?_, ?_, ?_, fun _ => hevents, ?_⟩
  · simp [hcursor]
  · simp [hcursor]
  · simp [hcursor]
  · simp [hevents, ingestedUids]
  · simp [hevents, ingestedUids]
  · simp [hevents]

/-- After a poll that has stopped at a message, the next one begins with it. -/
theorem PollingOk.retried {s : ImapState} (hs : PollingOk s) {uid : ℕ}
    (hlast : s.events.getLast? = some (.failed uid)) {sized : List ImapSizedUid}
    {sent : List ImapSent} {parse ingest : ℕ → Option String} {s' : ImapState}
    (hanswers : Answers s (.poll sized sent parse ingest))
    (h : s.step (.poll sized sent parse ingest) = some s') :
    (∃ event rest, Tried uid event ∧ s'.events = s.events ++ event :: rest) ∨
      ∃ sinceUid e, s.poll sinceUid sized sent parse ingest = .error e ∧ s' = s := by
  obtain ⟨sinceUid, hcursor, hpoll⟩ := Option.map_eq_some_iff.1 h
  obtain ⟨hlists, hsends⟩ := hanswers sinceUid hcursor
  cases hresult : s.poll sinceUid sized sent parse ingest with
  | error e =>
    rw [hresult] at hpoll
    exact .inr ⟨sinceUid, e, hresult, hpoll.symm⟩
  | ok r =>
    rw [hresult] at hpoll
    obtain ⟨u, result⟩ := r
    obtain rfl : u = s' := hpoll
    obtain ⟨c, hc, hlt, ⟨m, hm, huid, hsmall⟩, hfirst⟩ := hs.stopped uid hlast
    obtain rfl := Option.some.inj (hcursor.symm.trans hc)
    obtain ⟨fetched, settled, rest, hfetched, hentries, hall, hstop, rfl⟩ :=
      hs.poll_eq hlists hsends hresult
    obtain ⟨entry, tail, hhead⟩ : ∃ entry tail, fetched.entries = entry :: tail := by
      refine List.exists_cons_of_ne_nil fun hnil => ?_
      refine hfetched.nonempty ⟨m, hm, huid ▸ hlt⟩ ?_
      rw [← map_entries, hnil, List.map_nil]
    have hbatch := hfetched.first
    rw [← map_entries, hhead, List.map_cons] at hbatch
    have hentry : entry.uid = uid := by
      refine hbatch.head_eq (huid ▸ List.mem_map_of_mem hm) hlt fun i hi hbeyond => ?_
      obtain ⟨m', hm', rfl⟩ := List.mem_map.1 hi
      exact hfirst m' hm' hbeyond
    have hmsg : entry.msg ≠ none := by
      intro hnone
      have hmem : entry ∈ fetched.entries := hhead ▸ List.mem_cons_self
      rcases mem_entries.1 hmem with ⟨msg, -, rfl⟩ | ⟨skip, hskip, rfl⟩
      · cases hnone
      · obtain ⟨m', hm', hsame, hlarge⟩ := hfetched.oversized skip hskip
        exact hsmall (hs.inj m' hm' m hm (hsame.trans (hentry.trans huid.symm)) ▸ hlarge)
    left
    rw [hhead] at hentries
    cases settled with
    | nil =>
      obtain rfl : entry :: tail = rest := hentries
      obtain ⟨-, houtcome⟩ := outcome_of_not_settles (hstop entry rfl)
      exact ⟨entry.outcome parse ingest, [], .inr (.inr (hentry ▸ houtcome)), rfl⟩
    | cons first settled =>
      obtain ⟨rfl, -⟩ := List.cons.inj hentries
      refine ⟨entry.outcome parse ingest, _, ?_, rfl⟩
      rcases outcome_of_settles (hall entry List.mem_cons_self) with ⟨hnone, -⟩ | ⟨-, h | h⟩
      · exact absurd hnone hmsg
      · exact .inr (.inl (hentry ▸ h))
      · exact .inl (hentry ▸ h)

/-- **Polling loses nothing**, whatever arrives and whatever fails; and what a poll plans to
download comes first. -/
theorem polling_loses_nothing {s : ImapState}
    (h : imapMachine.Reaches ImapState.Started Answers s) :
    LosesNothing s ∧ ∀ cs opts, PlansFirst cs opts (planImapDownloads cs opts) := by
  have hs := pollingOk_of_reaches h
  refine ⟨⟨hs.accounted, hs.increasing, ?_⟩, plan_first⟩
  intro uid hlast sized sent parse ingest s' hanswers hstep
  exact hs.retried hlast hanswers hstep

/-! ### A download that fails as a whole -/

instance (mailbox : List ImapMessage) (sinceUid : ℕ) (sized : List ImapSizedUid) :
    Decidable (Lists mailbox sinceUid sized) :=
  inferInstanceAs (Decidable (_ ∧ _))

instance (mailbox : List ImapMessage) (uids : List ℕ) (sent : List ImapSent) :
    Decidable (Sends mailbox uids sent) :=
  inferInstanceAs (Decidable (_ ∧ _))

instance (s : ImapState) : ∀ a, Decidable (Answers s a)
  | .arrive _ => inferInstanceAs (Decidable True)
  | .anchor _ _ listed => inferInstanceAs (Decidable (∀ msg ∈ listed, msg.1 < s.uidNext))
  | .poll sized sent _ _ => inferInstanceAs (Decidable (∀ sinceUid ∈ s.cursor.lastUid,
      Lists s.mailbox sinceUid sized ∧ Sends s.mailbox ((planImapDownloads sized
        (fetchOptions sinceUid maxMessagesPerTick)).fetch.map (·.uid)) sent))

/-- An empty mailbox. -/
def emptyMailbox : ImapState where
  mailbox := []
  uidNext := 1
  uidValidity := "v"

theorem started_emptyMailbox : emptyMailbox.Started :=
  ⟨.nil, nofun, Nat.one_pos, rfl, rfl, rfl⟩

/-- A poll that is answered from the mailbox. -/
def answered (mailbox : List ImapMessage) (ingest : ℕ → Option String) : ImapMove :=
  .poll (mailbox.map fun m => ⟨m.uid, m.size⟩) (mailbox.map fun m => ⟨m.uid, some m.source⟩)
    (fun _ => none) ingest

/-- A message of one byte. -/
def smallMessage : ImapMessage := ⟨1, some 1, ⟨1⟩, none⟩

/-- Messages that are larger than they are declared to be. -/
def largerMessages : List ImapMessage :=
  [⟨2, some 1, ⟨imapMaxMessageBytes⟩, none⟩, ⟨3, some 1, ⟨imapMaxMessageBytes⟩, none⟩,
    ⟨4, some 1, ⟨imapMaxMessageBytes⟩, none⟩]

/-- The ingestion of a message fails, and then the larger ones arrive. -/
def stalledMailbox : List ImapMove :=
  [.anchor none [] [], .arrive smallMessage, answered [smallMessage] fun _ => some "down"] ++
    largerMessages.map .arrive

/-- **A message whose ingestion failed is not tried again** by a poll whose download is larger than
it was declared to be. -/
theorem retry_refused : ∃ s, imapMachine.Reaches ImapState.Started Answers s ∧
    s.events.getLast? = some (.failed 1) ∧ ∃ sized sent parse ingest s',
      Answers s (.poll sized sent parse ingest) ∧
        s.step (.poll sized sent parse ingest) = some s' ∧ s'.events = s.events := by
  let next : ImapMove := answered (smallMessage :: largerMessages) fun _ => none
  have hrun : (imapMachine.runUnder Answers emptyMailbox stalledMailbox).map (fun s =>
      (s.events, decide (Answers s next), (s.step next).map (·.events))) =
        some ([.failed 1], true, some [.failed 1]) := by decide +kernel
  obtain ⟨s, hs, hview⟩ := Machine.exists_reaches_of_runUnder started_emptyMailbox hrun
  rw [Prod.mk.injEq, Prod.mk.injEq, decide_eq_true_eq] at hview
  obtain ⟨hevents, hanswers, hnext⟩ := hview
  obtain ⟨s', hstep, hsame⟩ := Option.map_eq_some_iff.1 hnext
  exact ⟨s, hs, by rw [hevents]; rfl, _, _, _, _, s', hanswers, hstep, hsame.trans hevents.symm⟩

/-- The ingestion of a message fails at first. -/
def retriedMailbox : List ImapMove :=
  [.anchor none [] [], .arrive smallMessage, answered [smallMessage] fun _ => some "down",
    answered [smallMessage] fun _ => none]

/-- It is ingested by the next poll. -/
theorem polling_loses_nothing_sample : ∃ s,
    imapMachine.Reaches ImapState.Started Answers s ∧
      s.events = [.failed 1, .ingested 1] ∧ LosesNothing s := by
  have hrun : (imapMachine.runUnder Answers emptyMailbox retriedMailbox).map (·.events) =
      some [.failed 1, .ingested 1] := by decide +kernel
  obtain ⟨s, hs, hevents⟩ := Machine.exists_reaches_of_runUnder started_emptyMailbox hrun
  exact ⟨s, hs, hevents, (polling_loses_nothing hs).1⟩

end Munin
