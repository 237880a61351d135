import Munin.Foundations.BatchQueue
import Munin.Outreach.Proposal
import Munin.Outreach.SendPolicy

/-!
# The send worker

A tick takes the proposals that are approved and due, at most `BATCH_SIZE` of them by the time they
were scheduled for, and sends each, puts it off or records that it failed. Proposals of calls and
texts wait for their campaign's calling window, and their row is not touched then.

* **`sendScheduledProposal`**, **`tick`** — one scheduled send, and a tick of the worker.
* **`proposalQueue`** — the worker as a queue served in batches, as long as it sends nothing.
* **`stuck_iff_heldBack`** — which rows keep their place in that queue.
* **`worker_reaches_iff`** — when ticks at one moment get to something that can be sent.

What a scheduled send finds (the campaign, the send policy's answer, the delivery's outcome) may
depend on what was sent before. `Intl` is a parameter.
-/

namespace Munin

open Foundations

/-! ### Calling windows -/

/-- `CadenceRules`, as far as calling windows go. -/
structure CallingRules where
  quietHoursStart : Option String := none
  quietHoursEnd : Option String := none
  quietHoursTimezone : Option String := none
  blackoutDates : List String := []

/-- The date and the minute of the day in a time zone, if `Intl` knows it. -/
abbrev ZoneClock := Instant → String → Option (String × Nat)

/-- `localDateAndMinute`: in UTC if there is no time zone, or none of that name. -/
def localDateAndMinute (intl : ZoneClock) (now : Instant) (timeZone : Option String) :
    String × Nat :=
  let utc := (jsTake 10 now.toISOString, (now / 60000 % 1440).toNat)
  match timeZone with
  | none => utc
  | some zone => if zone = "" then utc else (intl now zone).getD utc

/-- `Number` of a text of digits; `none` is not a number. -/
def digitsValue (text : List Char) : Option Nat :=
  if text.all (·.isDigit) then some (text.foldl (fun n c => 10 * n + (c.toNat - '0'.toNat)) 0)
  else none

/-- `toMinuteOfDay`; `none` is not a number. -/
def toMinuteOfDay (hhmm : String) : Option Nat :=
  match hhmm.toList.span (· ≠ ':') with
  | (_, []) => none
  | (h, _ :: rest) =>
    match digitsValue h, digitsValue (rest.takeWhile (· ≠ ':')) with
    | some hours, some minutes => some (hours * 60 + minutes)
    | _, _ => none

/-- Whether a minute is in the quiet hours; what is not a number compares to nothing. -/
def quietMinute (start end' : Option Nat) (minute : Nat) : Bool :=
  let since := start.any (· ≤ minute)
  let before := end'.any (minute < ·)
  match start, end' with
  | some s, some e => if s = e then false else if s < e then since && before else since || before
  | _, _ => since || before

/-- `outsideCallingWindow`: why the rules forbid calls now, if they do. -/
def outsideCallingWindow (intl : ZoneClock) (rules : CallingRules) (now : Instant) :
    Option String :=
  let at' := localDateAndMinute intl now rules.quietHoursTimezone
  if at'.1 ∈ rules.blackoutDates then some ("on " ++ at'.1)
  else match rules.quietHoursStart, rules.quietHoursEnd with
    | some start, some end' =>
      if start = "" ∨ end' = "" then none
      else if quietMinute (toMinuteOfDay start) (toMinuteOfDay end') at'.2 then
        some ("between " ++ start ++ "–" ++ end' ++ " " ++
          if truthy rules.quietHoursTimezone then rules.quietHoursTimezone.getD "" else "UTC")
      else none
    | _, _ => none

/-! ### One scheduled send -/

/-- What was thrown, and whether it is an `OutreachInvalidError`. -/
structure SendFailure where
  invalid : Bool
  message : String

/-- What a scheduled send finds around a proposal. -/
structure SendSurroundings where
  /-- `delivery?.channelType ?? 'email'`. -/
  channel : ChannelType := .email
  campaign : Except SendFailure CallingRules := .ok {}
  /-- The send policy's answer, or the one of the handler of the proposal's kind. -/
  gate : Except SendFailure (Option SendDecision) := .ok (some .send)
  deliver : Except SendFailure Unit := .ok ()
  /-- Whether a failure can be recorded. -/
  recorded : Bool := true

/-- `sendWindowClosedReason`. -/
def sendWindowClosedReason (intl : ZoneClock) (env : SendSurroundings) (now : Instant)
    (p : Proposal) : Except SendFailure (Option String) :=
  if !requiresHumanApproval env.channel || !truthy p.campaignId then .ok none
  else env.campaign.map fun rules => (outsideCallingWindow intl rules now).map fun blocked =>
    "campaign " ++ p.campaignId.getD "" ++ " does not " ++
      (if env.channel = .voice then "call" else "message") ++ " " ++ blocked

/-- `ScheduledSendOutcome`, with the reason of a deferral. -/
inductive ScheduledSendOutcome where
  | sent
  | deferred (reason : String)
  | skipped
  deriving DecidableEq

/-- What happens to an approved proposal. -/
inductive SendVerdict where
  /-- The campaign's calling window is closed. -/
  | closed (reason : String)
  | wait (until' : Instant) (reason : String)
  | delivered

/-- The window, the gate and the delivery of `sendScheduledProposal`, in this order. -/
def sendVerdict (intl : ZoneClock) (env : SendSurroundings) (now : Instant) (p : Proposal) :
    Except SendFailure SendVerdict := do
  match ← sendWindowClosedReason intl env now p with
  | some closed => pure (.closed closed)
  | none => match ← env.gate with
    | some (.defer until' reason) => pure (.wait until' reason)
    | _ => env.deliver.map fun _ => .delivered

/-- `sendScheduledProposal`: the outcome and the row after it. -/
def sendScheduledProposal (intl : ZoneClock) (env : SendSurroundings) (now : Instant)
    (p : Proposal) : Except SendFailure (ScheduledSendOutcome × Proposal) :=
  if p.status ≠ .approved then .ok (.skipped, p)
  else (sendVerdict intl env now p).map fun
    | .closed reason => (.deferred reason, p)
    | .wait until' reason =>
      (.deferred reason, { p with scheduledSendAt := some until', updatedAt := now })
    | .delivered => (.sent, markSent p now)

/-- `sendOne`, and `recordFailure` if it throws: the outcome, none if it failed, and the row. -/
def sendOne (intl : ZoneClock) (env : SendSurroundings) (now : Instant) (p : Proposal) :
    Option ScheduledSendOutcome × Proposal :=
  match sendScheduledProposal intl env now p with
  | .ok (outcome, row) => (some outcome, row)
  | .error e =>
    (none, if env.recorded then recordFailure p p e.message e.invalid now else p)

/-! ### Ticks -/

def BATCH_SIZE : Nat := 25

/-- The `where` of `dueProposals`. -/
def dueProposal (now : Instant) (p : Proposal) : Bool :=
  p.status = .approved && p.scheduledSendAt.any (· ≤ now) && p.sendAttempts < MAX_SEND_ATTEMPTS

/-- The `order by` of `dueProposals`; what is due has a scheduled time. -/
def scheduledAt (p : Proposal) : Instant := p.scheduledSendAt.getD 0

/-- The proposals, no two of one id, and the ids of those sent so far. -/
structure SendWorkerState where
  rows : List Proposal
  unique : (rows.map (·.id)).Nodup
  sent : List String := []

/-- `OutreachSendTickResult`. -/
structure SendTickResult where
  sent : Nat := 0
  deferred : Nat := 0
  failed : Nat := 0

/-- The result with one more outcome counted. -/
def SendTickResult.count (r : SendTickResult) : Option ScheduledSendOutcome → SendTickResult
  | none => { r with failed := r.failed + 1 }
  | some .sent => { r with sent := r.sent + 1 }
  | some (.deferred _) => { r with deferred := r.deferred + 1 }
  | some .skipped => r

/-- What scheduled sends find around a proposal, after some were sent. -/
abbrev SendAnswers := List String → String → SendSurroundings

section Rows

variable (intl : ZoneClock) (env : SendSurroundings) (now : Instant)

/-- **A scheduled send keeps what it does not decide**: the id, and the campaign. -/
theorem sendOne_kept (p : Proposal) :
    (sendOne intl env now p).2.id = p.id ∧
      (sendOne intl env now p).2.campaignId = p.campaignId := by
  unfold sendOne sendScheduledProposal
  split
  · rename_i outcome row h
    split at h
    · cases h
      exact ⟨rfl, rfl⟩
    · cases hverdict : sendVerdict intl env now p with
      | error e =>
        rw [hverdict] at h
        cases h
      | ok verdict =>
        rw [hverdict] at h
        cases verdict <;> cases h <;> exact ⟨rfl, rfl⟩
  · split <;> exact ⟨rfl, rfl⟩

/-- What a scheduled send makes of an approved row. -/
theorem sendOne_of_approved {p : Proposal} (h : p.status = .approved) :
    sendOne intl env now p = match sendVerdict intl env now p with
      | .ok (.closed reason) => (some (.deferred reason), p)
      | .ok (.wait until' reason) =>
        (some (.deferred reason), { p with scheduledSendAt := some until', updatedAt := now })
      | .ok .delivered => (some .sent, markSent p now)
      | .error e =>
        (none, if env.recorded then recordFailure p p e.message e.invalid now else p) := by
  rw [sendOne, sendScheduledProposal, if_neg (not_not.2 h)]
  cases sendVerdict intl env now p with
  | error e => rfl
  | ok verdict => cases verdict <;> rfl

@[simp]
theorem sendOne_id (p : Proposal) : (sendOne intl env now p).2.id = p.id :=
  (sendOne_kept intl env now p).1

/-- The window, the gate and the delivery look at the campaign of the row only. -/
theorem sendVerdict_congr {p q : Proposal} (h : q.campaignId = p.campaignId) :
    sendVerdict intl env now q = sendVerdict intl env now p := by
  unfold sendVerdict sendWindowClosedReason
  rw [h]

end Rows

section Worker

variable (intl : ZoneClock) (answers : SendAnswers) (now : Instant)

/-- One round of the loop of `drain`: the row is read again, sent or put off, and written. -/
def serveRow (s : SendWorkerState × SendTickResult) (p : Proposal) :
    SendWorkerState × SendTickResult :=
  match s.1.rows.find? (·.id = p.id) with
  | none => (s.1, s.2.count none)
  | some row =>
    let served := sendOne intl (answers s.1.sent p.id) now row
    ({ rows := s.1.rows.map fun r => if r.id = p.id then { served.2 with id := r.id } else r
       unique := by
         rw [List.map_map]
         refine (List.map_congr_left fun r _ => ?_).symm ▸ s.1.unique
         dsimp only [Function.comp]
         split <;> rfl
       sent := if served.1 = some .sent then p.id :: s.1.sent else s.1.sent },
      s.2.count served.1)

/-- `dueProposals`, the rows of one scheduled time in the order the query gives them. -/
def dueProposals (order : TakeOrder scheduledAt) (rows : List Proposal) : List Proposal :=
  (order.sort (rows.filter (dueProposal now))).take BATCH_SIZE

/-- `drain`. -/
def drain (order : TakeOrder scheduledAt) (s : SendWorkerState) :
    SendWorkerState × SendTickResult :=
  (dueProposals now order s.rows).foldl (serveRow intl answers now) (s, {})

/-- The state after some ticks at one moment. -/
def ticks : (Nat → TakeOrder scheduledAt) → Nat → SendWorkerState → SendWorkerState
  | _, 0, s => s
  | orders, n + 1, s => ticks (fun i => orders (i + 1)) n (drain intl answers now (orders 0) s).1

/-- What a scheduled send makes of a row before anything was sent: `none` if it is sent. -/
def putBack (p : Proposal) : Option Proposal :=
  let served := sendOne intl (answers [] p.id) now p
  if served.1 = some .sent then none else some served.2

/-- The worker as a queue, as long as it has sent nothing. -/
abbrev proposalQueue : BatchQueue Proposal where
  due := dueProposal now
  key := scheduledAt
  size := BATCH_SIZE
  process := putBack intl answers now

variable {intl answers now} {p q : Proposal}

/-- What a scheduled send does to a row, before anything was sent. -/
theorem process_eq_some (h : putBack intl answers now p = some q) :
    (sendOne intl (answers [] p.id) now p).1 ≠ some .sent ∧
      (sendOne intl (answers [] p.id) now p).2 = q := by
  dsimp only [putBack] at h
  split at h
  · cases h
  · exact ⟨‹_›, Option.some.inj h⟩

theorem process_eq_none :
    putBack intl answers now p = none ↔
      (sendOne intl (answers [] p.id) now p).1 = some .sent := by
  dsimp only [putBack]
  split <;> simp_all

/-- The row that is read again is the one that was taken. -/
theorem find_row {s : SendWorkerState} (hp : p ∈ s.rows) :
    s.rows.find? (·.id = p.id) = some p := by
  cases hfind : s.rows.find? (·.id = p.id) with
  | none => exact absurd (by simp) (List.find?_eq_none.1 hfind p hp)
  | some row =>
    have hid : row.id = p.id := by simpa using List.find?_some hfind
    exact congrArg some (List.inj_on_of_nodup_map s.unique (List.mem_of_find?_eq_some hfind) hp hid)

section Loop

variable {s : SendWorkerState × SendTickResult} {due : List Proposal}

/-- The first one sent is on the record. -/
theorem serveRow_of_sent (hsent : s.1.sent = []) (hp : p ∈ s.1.rows)
    (h : putBack intl answers now p = none) :
    (serveRow intl answers now s p).1.sent ≠ [] := by
  rw [serveRow, find_row hp]
  dsimp only
  rw [hsent, if_pos (process_eq_none.1 h)]
  exact List.cons_ne_nil _ _

/-- What is not sent is written as the queue says, and the other rows stay. -/
theorem serveRow_of_kept (hsent : s.1.sent = []) (hp : p ∈ s.1.rows)
    (h : putBack intl answers now p = some q) :
    (serveRow intl answers now s p).1.sent = [] ∧
      (serveRow intl answers now s p).1.rows = s.1.rows.map fun r => if r = p then q else r := by
  obtain ⟨hnot, hrow⟩ := process_eq_some h
  rw [serveRow, find_row hp]
  dsimp only
  rw [hsent, if_neg hnot]
  refine ⟨rfl, List.map_congr_left fun r hr => ?_⟩
  by_cases hid : r.id = p.id
  · have hsame : r = p := List.inj_on_of_nodup_map s.1.unique hr hp hid
    have hq : q.id = p.id := hrow ▸ sendOne_id intl _ now p
    rw [if_pos hid, if_pos hsame, hrow, hid, ← hq]
  · rw [if_neg hid, if_neg fun hsame : r = p => hid (hsame ▸ rfl)]

/-- What was sent stays on the record. -/
theorem sent_serveRow (h : s.1.sent ≠ []) : (serveRow intl answers now s p).1.sent ≠ [] := by
  unfold serveRow
  split
  · exact h
  · dsimp only
    split
    · exact List.cons_ne_nil _ _
    · exact h

theorem sent_foldl (h : s.1.sent ≠ []) : (due.foldl (serveRow intl answers now) s).1.sent ≠ [] := by
  induction due generalizing s with
  | nil => exact h
  | cons p due ih => exact ih (sent_serveRow h)

/-- The rows still to come are there after one was put off. -/
theorem mem_serveRow (hfresh : p ∉ due) (hdue : ∀ b ∈ p :: due, b ∈ s.1.rows)
    (hrows : (serveRow intl answers now s p).1.rows =
      s.1.rows.map fun r => if r = p then q else r) :
    ∀ b ∈ due, b ∈ (serveRow intl answers now s p).1.rows := by
  intro b hb
  rw [hrows]
  have hne : b ≠ p := fun hsame : b = p => hfresh (hsame ▸ hb)
  exact List.mem_map.2 ⟨b, hdue b (List.mem_cons_of_mem p hb), if_neg hne⟩

/-- **The loop sends something** if a row of the batch can be sent. -/
theorem sent_of_process (hnodup : due.Nodup) (hsent : s.1.sent = [])
    (hdue : ∀ p ∈ due, p ∈ s.1.rows) (h : ∃ p ∈ due, putBack intl answers now p = none) :
    (due.foldl (serveRow intl answers now) s).1.sent ≠ [] := by
  induction due generalizing s with
  | nil => simp at h
  | cons p due ih =>
    obtain ⟨hfresh, hnodup⟩ := List.nodup_cons.1 hnodup
    have hp := hdue p List.mem_cons_self
    rw [List.foldl_cons]
    cases hprocess : putBack intl answers now p with
    | none => exact sent_foldl (serveRow_of_sent hsent hp hprocess)
    | some q =>
      obtain ⟨hsent', hrows'⟩ := serveRow_of_kept hsent hp hprocess
      refine ih hnodup hsent' (mem_serveRow hfresh hdue hrows') ?_
      obtain ⟨b, hb, hnone⟩ := h
      rcases List.mem_cons.1 hb with rfl | hb
      · rw [hprocess] at hnone
        cases hnone
      · exact ⟨b, hb, hnone⟩

/-- **The loop and the queue**: if no row of the batch can be sent, the rows are those of the queue
after its tick. -/
theorem rows_of_process (hnodup : due.Nodup) (hsent : s.1.sent = [])
    (hdue : ∀ p ∈ due, p ∈ s.1.rows) (h : ∀ p ∈ due, putBack intl answers now p ≠ none) :
    (due.foldl (serveRow intl answers now) s).1.sent = [] ∧
      (due.foldl (serveRow intl answers now) s).1.rows = s.1.rows.map fun r =>
        if r ∈ due then (putBack intl answers now r).getD r else r := by
  induction due generalizing s with
  | nil => simpa using hsent
  | cons p due ih =>
    obtain ⟨hfresh, hnodup⟩ := List.nodup_cons.1 hnodup
    have hp := hdue p List.mem_cons_self
    obtain ⟨q, hprocess⟩ := Option.ne_none_iff_exists'.1 (h p List.mem_cons_self)
    obtain ⟨hsent', hrows'⟩ := serveRow_of_kept hsent hp hprocess
    rw [List.foldl_cons]
    obtain ⟨hsent'', hrows''⟩ := ih hnodup hsent' (mem_serveRow hfresh hdue hrows')
      fun b hb => h b (List.mem_cons_of_mem p hb)
    refine ⟨hsent'', ?_⟩
    rw [hrows'', hrows', List.map_map]
    refine List.map_congr_left fun r hr => ?_
    by_cases hsame : r = p
    · subst hsame
      have hq : q ∉ due := by
        intro hmem
        have hid : q.id = r.id := (process_eq_some hprocess).2 ▸ sendOne_id intl _ now r
        have hback := List.inj_on_of_nodup_map s.1.unique
          (hdue q (List.mem_cons_of_mem r hmem)) hp hid
        exact hfresh (hback ▸ hmem)
      simp [hq, hprocess]
    · simp [hsame]

end Loop

/-! ### The worker is the queue -/

variable {order : TakeOrder scheduledAt} {s : SendWorkerState}

theorem mem_dueProposals :
    ∀ p ∈ dueProposals now order s.rows, p ∈ s.rows := by
  intro p hp
  have hsorted := (order.perm _).mem_iff.1 (List.mem_of_mem_take hp)
  exact (List.mem_filter.1 hsorted).1

theorem nodup_dueProposals :
    (dueProposals now order s.rows).Nodup := by
  have hrows : s.rows.Nodup := List.Nodup.of_map _ s.unique
  refine List.Nodup.sublist (List.take_sublist _ _) ?_
  exact (order.perm _).nodup_iff.2 (hrows.filter _)

/-- A tick that serves nothing in the queue sends nothing, and leaves the rows as the queue does. -/
theorem drain_of_not_serves
    (hsent : s.sent = []) (h : ¬ (proposalQueue intl answers now).Serves order s.rows) :
    (drain intl answers now order s).1.sent = [] ∧
      (drain intl answers now order s).1.rows
        = (proposalQueue intl answers now).after order s.rows :=
  rows_of_process (s := (s, {})) nodup_dueProposals hsent mem_dueProposals
    fun p hp hnone => h ⟨p, hp, hnone⟩

theorem drain_of_serves
    (hsent : s.sent = []) (h : (proposalQueue intl answers now).Serves order s.rows) :
    (drain intl answers now order s).1.sent ≠ [] :=
  sent_of_process (s := (s, {})) nodup_dueProposals hsent mem_dueProposals h

/-- **The worker gets to send something exactly if the queue serves something.** -/
theorem ticks_sent_iff {orders : Nat → TakeOrder scheduledAt} (hsent : s.sent = []) :
    (∃ n, (ticks intl answers now orders n s).sent ≠ []) ↔
      ∃ n, (proposalQueue intl answers now).Serves (orders n)
        ((proposalQueue intl answers now).run orders n s.rows) := by
  constructor
  · rintro ⟨n, hn⟩
    induction n generalizing s orders with
    | zero => exact absurd hsent hn
    | succ n ih =>
      by_cases hserves : (proposalQueue intl answers now).Serves (orders 0) s.rows
      · exact ⟨0, hserves⟩
      · obtain ⟨hsent', hrows'⟩ := drain_of_not_serves hsent hserves
        obtain ⟨m, hm⟩ := ih hsent' hn
        rw [hrows'] at hm
        exact ⟨m + 1, hm⟩
  · rintro ⟨n, hn⟩
    induction n generalizing s orders with
    | zero => exact ⟨1, drain_of_serves hsent hn⟩
    | succ n ih =>
      by_cases hserves : (proposalQueue intl answers now).Serves (orders 0) s.rows
      · exact ⟨1, drain_of_serves hsent hserves⟩
      · obtain ⟨hsent', hrows'⟩ := drain_of_not_serves hsent hserves
        rw [BatchQueue.run_succ, ← hrows'] at hn
        obtain ⟨m, hm⟩ := @ih _ (fun i => orders (i + 1)) hsent' hn
        exact ⟨m + 1, hm⟩

/-! ### Which rows keep their place -/

/-- Whether a row keeps its place up to a scheduled time: its window is closed, it is put off to
that time at the latest and is due again, or it fails and the failure is not recorded. -/
def heldBack (intl : ZoneClock) (env : SendSurroundings) (now until' : Instant) (p : Proposal) :
    Bool :=
  match sendVerdict intl env now p with
  | .ok (.closed _) => true
  | .ok (.wait t _) => decide (t ≤ now ∧ t ≤ until')
  | .ok .delivered => false
  | .error _ => !env.recorded

/-- Whether a row would be sent. -/
def sendableNow (intl : ZoneClock) (env : SendSurroundings) (now : Instant) (p : Proposal) : Bool :=
  sendVerdict intl env now p matches .ok .delivered

theorem due_iff : dueProposal now p = true ↔
    p.status = .approved ∧ p.scheduledSendAt.any (· ≤ now) = true ∧
      p.sendAttempts < MAX_SEND_ATTEMPTS := by
  simp [dueProposal, and_assoc]

/-- What the queue makes of a row that is due. -/
theorem process_of_due (hdue : dueProposal now p = true) :
    putBack intl answers now p =
      match sendVerdict intl (answers [] p.id) now p with
      | .ok (.closed _) => some p
      | .ok (.wait t _) => some { p with scheduledSendAt := some t, updatedAt := now }
      | .ok .delivered => none
      | .error e => some
        (if (answers [] p.id).recorded then recordFailure p p e.message e.invalid now else p) := by
  simp only [putBack, sendOne_of_approved intl _ now (due_iff.1 hdue).1]
  cases sendVerdict intl (answers [] p.id) now p with
  | error e => rfl
  | ok verdict => cases verdict <;> rfl

theorem process_none_iff :
    putBack intl answers now p = none ↔
      p.status = .approved ∧ sendableNow intl (answers [] p.id) now p = true := by
  rw [process_eq_none, sendableNow]
  by_cases hstatus : p.status = .approved
  · rw [sendOne_of_approved intl _ now hstatus]
    cases sendVerdict intl (answers [] p.id) now p with
    | error e => simp
    | ok verdict => cases verdict <;> simp [hstatus]
  · rw [sendOne, sendScheduledProposal, if_pos hstatus]
    simp [hstatus]

/-- What is put back gets the same answers. -/
theorem verdict_of_process (h : putBack intl answers now p = some q) :
    q.id = p.id ∧ sendVerdict intl (answers [] q.id) now q
      = sendVerdict intl (answers [] p.id) now p := by
  obtain ⟨-, hrow⟩ := process_eq_some h
  obtain ⟨hid, hcampaign⟩ := sendOne_kept intl (answers [] p.id) now p
  rw [hrow] at hid hcampaign
  refine ⟨hid, ?_⟩
  rw [hid]
  exact sendVerdict_congr intl _ now hcampaign

/-- A failure that is recorded does not keep a row in its place: it is given up in the end. -/
theorem not_stuck_of_recorded {k : Instant} {e : SendFailure}
    (hverdict : sendVerdict intl (answers [] p.id) now p = .error e)
    (hrecorded : (answers [] p.id).recorded = true) :
    ¬ (proposalQueue intl answers now).Stuck k p := by
  intro hstuck
  have hmore : ∀ n, ∃ q : Proposal, q.id = p.id ∧ n ≤ q.sendAttempts ∧
      sendVerdict intl (answers [] q.id) now q = .error e ∧
      (proposalQueue intl answers now).Stuck k q := by
    intro n
    induction n with
    | zero => exact ⟨p, rfl, Nat.zero_le _, hverdict, hstuck⟩
    | succ n ih =>
      obtain ⟨q, hid, hn, hq, hstuckq⟩ := ih
      obtain ⟨hdue, hkey, -⟩ := hstuckq.due
      have hprocess : putBack intl answers now q
          = some (recordFailure q q e.message e.invalid now) := by
        rw [process_of_due hdue, hq, hid]
        simp [hrecorded]
      obtain ⟨hid', hsame⟩ := verdict_of_process hprocess
      refine ⟨_, hid'.trans hid, Nat.succ_le_succ hn, hsame.trans hq, ?_⟩
      exact (BatchQueue.stuck_iff hdue hkey hprocess).1 hstuckq
  obtain ⟨q, -, hn, -, hstuckq⟩ := hmore MAX_SEND_ATTEMPTS
  have hlt := (due_iff.1 hstuckq.due.1).2.2
  omega

/-- What is held back stays due, with a scheduled time up to the bound. -/
theorem process_of_heldBack {k : Instant} (hdue : dueProposal now p = true)
    (hkey : scheduledAt p ≤ k) (hheld : heldBack intl (answers [] p.id) now k p = true) :
    ∃ q, putBack intl answers now p = some q ∧ dueProposal now q = true ∧
      scheduledAt q ≤ k := by
  rw [process_of_due hdue]
  unfold heldBack at hheld
  cases hverdict : sendVerdict intl (answers [] p.id) now p with
  | error e =>
    rw [hverdict] at hheld
    have hrecorded : (answers [] p.id).recorded = false := by simpa using hheld
    exact ⟨p, by simp [hrecorded], hdue, hkey⟩
  | ok verdict =>
    rw [hverdict] at hheld
    cases verdict with
    | closed reason => exact ⟨p, rfl, hdue, hkey⟩
    | delivered => cases hheld
    | wait t reason =>
      obtain ⟨ht, htk⟩ := of_decide_eq_true hheld
      obtain ⟨hstatus, -, hattempts⟩ := due_iff.1 hdue
      exact ⟨_, rfl, due_iff.2 ⟨hstatus, decide_eq_true ht, hattempts⟩, htk⟩

/-- **The rows that keep their place** up to a scheduled time. -/
theorem stuck_iff_heldBack {k : Instant} :
    (proposalQueue intl answers now).Stuck k p ↔
      dueProposal now p = true ∧ scheduledAt p ≤ k ∧
        heldBack intl (answers [] p.id) now k p = true := by
  constructor
  · intro hstuck
    obtain ⟨hdue, hkey, hsome⟩ := hstuck.due
    refine ⟨hdue, hkey, ?_⟩
    obtain ⟨q, hprocess : putBack intl answers now p = some q⟩ := Option.ne_none_iff_exists'.1 hsome
    have hstuckq := (BatchQueue.stuck_iff hdue hkey hprocess).1 hstuck
    rw [process_of_due hdue] at hprocess
    unfold heldBack
    cases hverdict : sendVerdict intl (answers [] p.id) now p with
    | error e =>
      cases hrecorded : (answers [] p.id).recorded with
      | false => rfl
      | true => exact absurd hstuck (not_stuck_of_recorded hverdict hrecorded)
    | ok verdict =>
      rw [hverdict] at hprocess
      cases verdict with
      | closed reason => rfl
      | delivered => cases hprocess
      | wait t reason =>
        obtain rfl := Option.some.inj hprocess
        obtain ⟨hdueq, hkeyq, -⟩ := hstuckq.due
        have ht : t ≤ now := by simpa using (due_iff.1 hdueq).2.1
        exact decide_eq_true ⟨ht, hkeyq⟩
  · intro h
    refine BatchQueue.Stuck.of_keeps (S := fun q => dueProposal now q = true ∧ scheduledAt q ≤ k ∧
      heldBack intl (answers [] q.id) now k q = true) (fun a ha => ?_) h
    obtain ⟨hdue, hkey, hheld⟩ := ha
    obtain ⟨q, hprocess, hdueq, hkeyq⟩ := process_of_heldBack hdue hkey hheld
    obtain ⟨hid, hsame⟩ := verdict_of_process hprocess
    refine ⟨hdue, hkey, q, hprocess, hdueq, hkeyq, ?_⟩
    rwa [heldBack, hsame, hid]

/-! ### When the worker gets to something -/

/-- The rows that are scheduled no later than a time, are due, and keep their place up to it. -/
def heldUpTo (intl : ZoneClock) (answers : SendAnswers) (now until' : Instant)
    (rows : List Proposal) : List Proposal :=
  rows.filter fun p => dueProposal now p && decide (scheduledAt p ≤ until') &&
    heldBack intl (answers [] p.id) now until' p

/-- Some row is due and would be sent. -/
def SomeSendable (intl : ZoneClock) (answers : SendAnswers) (now : Instant)
    (rows : List Proposal) : Prop :=
  ∃ p ∈ rows, dueProposal now p = true ∧ sendableNow intl (answers [] p.id) now p = true

/-- Some row is due and would be sent, and the rows held up to its time do not fill a batch. -/
def SomeInReach (intl : ZoneClock) (answers : SendAnswers) (now : Instant)
    (rows : List Proposal) : Prop :=
  ∃ p ∈ rows, dueProposal now p = true ∧ sendableNow intl (answers [] p.id) now p = true ∧
    (heldUpTo intl answers now (scheduledAt p) rows).length < BATCH_SIZE

/-- Ticks at one moment get to send something, whichever rows of one scheduled time a query gives
first. -/
def GetsToSend (intl : ZoneClock) (answers : SendAnswers) (now : Instant) (s : SendWorkerState) :
    Prop :=
  ∀ orders : Nat → TakeOrder scheduledAt, ∃ n, (ticks intl answers now orders n s).sent ≠ []

open Classical in
theorem length_heldUpTo (k : Instant) (rows : List Proposal) :
    (heldUpTo intl answers now k rows).length
      = rows.countP ((proposalQueue intl answers now).Stuck k ·) := by
  rw [heldUpTo, ← List.countP_eq_length_filter]
  refine List.countP_congr fun p _ => ?_
  rw [decide_eq_true_eq, stuck_iff_heldBack]
  simp [and_assoc]

/-- What is put back is not sent the next time either. -/
theorem process_of_process (h : putBack intl answers now p = some q) :
    putBack intl answers now q ≠ none := by
  intro hnone
  obtain ⟨happroved, hsend⟩ := process_none_iff.1 hnone
  by_cases hstatus : p.status = .approved
  · have hsendp : sendableNow intl (answers [] p.id) now p = true := by
      rw [sendableNow, (verdict_of_process h).2] at hsend
      exact hsend
    rw [process_none_iff.2 ⟨hstatus, hsendp⟩] at h
    cases h
  · have hrow := (process_eq_some h).2
    rw [sendOne, sendScheduledProposal, if_pos hstatus] at hrow
    obtain rfl : p = q := hrow
    exact hstatus happroved

/-- **When the worker gets to send something**: exactly if something is in reach. -/
theorem getsToSend_iff (hsent : s.sent = []) :
    GetsToSend intl answers now s ↔ SomeInReach intl answers now s.rows := by
  unfold GetsToSend
  simp only [ticks_sent_iff hsent]
  refine (BatchQueue.served_iff (Q := proposalQueue intl answers now)
    (fun _ _ => process_of_process) s.rows).trans ?_
  unfold SomeInReach
  refine exists_congr fun p => and_congr_right fun hp => and_congr_right fun hdue => ?_
  rw [length_heldUpTo]
  refine and_congr (process_none_iff.trans ?_) Iff.rfl
  exact and_iff_right (due_iff.1 hdue).1

/-- **The worker is starved exactly if** rows that keep their place fill a batch before everything
that could be sent. -/
theorem worker_reaches_iff (intl : ZoneClock) (answers : SendAnswers) (now : Instant)
    (s : SendWorkerState) :
    (SomeSendable intl answers now s.rows → GetsToSend intl answers now { s with sent := [] }) ↔
      (SomeSendable intl answers now s.rows → SomeInReach intl answers now s.rows) := by
  rw [getsToSend_iff rfl]

end Worker

/-! ### A full batch of closed windows -/

/-- Texts of a campaign that is quiet at midnight, scheduled before an email. -/
def closedBacklog : List Proposal :=
  ((List.range 25).map fun i =>
    { id := String.ofList (List.replicate i 'p'), campaignId := some "texts", contactId := "c"
      kind := "initial", draftBody := "hi", scheduledSendAt := some (-1), status := .approved }) ++
  [{ id := "email", campaignId := some "mail", contactId := "d", kind := "initial"
     draftBody := "hi", scheduledSendAt := some 0, status := .approved }]

/-- What is found around them. -/
def backlogAnswers : SendAnswers := fun _ id =>
  if id = "email" then {}
  else { channel := .sms
         campaign := .ok { quietHoursStart := some "21:00", quietHoursEnd := some "08:00" } }

/-- **An email behind texts whose calling window is closed is never sent.** -/
theorem worker_starved : ¬ ∀ (intl : ZoneClock) (answers : SendAnswers) (now : Instant)
    (s : SendWorkerState), s.sent = [] → SomeSendable intl answers now s.rows →
      GetsToSend intl answers now s := by
  intro hall
  have hsends : SomeSendable (fun _ _ => none) backlogAnswers 0 closedBacklog := by
    unfold SomeSendable
    decide +kernel
  have hreach := (getsToSend_iff rfl).1
    (hall (fun _ _ => none) backlogAnswers 0 ⟨closedBacklog, by decide +kernel, []⟩ rfl hsends)
  revert hreach
  unfold SomeInReach
  decide +kernel

end Munin
