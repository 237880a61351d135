import Munin.Outreach.Proposal

/-!
# Broadcasts: the rows and the pure parts of their operations

A broadcast is one email to everybody in a segment. A person approves it as a whole; a worker then
sends it batch by batch. This file has the broadcast and its recipients, the fingerprint of what is
approved, and what one statement of each operation does to them; how the operations interleave is
`Munin.Outreach.BroadcastSessions`.

* **`broadcastFingerprint`** — the digest of the compiled body, the header fields and the size of
  the audience.
* **`claimDecision`, `claim`** — which queued recipients a batch takes, holds back or skips.
* **`record`** — the outcome of a delivery written on its recipient.
-/

namespace Munin

open Foundations

/-! ### The rows -/

/-- `BROADCAST_STATUSES`. -/
inductive BroadcastStatus where
  | pending
  | approved
  | sending
  | sent
  | cancelled
  | dismissed
  | failed
  deriving DecidableEq

def BroadcastStatus.text : BroadcastStatus → String
  | .pending => "pending"
  | .approved => "approved"
  | .sending => "sending"
  | .sent => "sent"
  | .cancelled => "cancelled"
  | .dismissed => "dismissed"
  | .failed => "failed"

/-- The statuses in which a broadcast that was started has ended. -/
def BroadcastStatus.terminal : BroadcastStatus → Bool
  | .sent | .cancelled | .failed => true
  | .pending | .approved | .sending | .dismissed => false

/-- `BROADCAST_RECIPIENT_STATUSES`. -/
inductive RecipientStatus where
  | queued
  | sending
  | sent
  | skipped
  | failed
  deriving DecidableEq

/-- The statuses in which nothing more should be sent to a recipient. -/
def RecipientStatus.settled : RecipientStatus → Bool
  | .queued | .sending => false
  | .sent | .skipped | .failed => true

/-- The formats of an email body. -/
inductive EmailContentFormat where
  | markdown
  | mjml

/-- A row of `outreach_broadcasts`. -/
structure Broadcast where
  id : String
  name : String
  segmentId : String
  channelId : String
  emailTemplateId : Option String := none
  subject : String
  preheader : Option String := none
  contentFormat : EmailContentFormat := .markdown
  body : String
  status : BroadcastStatus := .pending
  scheduledSendAt : Option Instant := none
  maxPerHour : Option Nat := none
  approvedHtml : Option String := none
  approvedFingerprint : Option String := none
  approvedAudienceCount : Option Nat := none
  decidedByActorType : Option ActorType := none
  decidedByActorId : Option String := none
  decidedAt : Option Instant := none
  startedAt : Option Instant := none
  completedAt : Option Instant := none
  dismissReason : Option String := none
  cancelReason : Option String := none
  failureReason : Option String := none
  updatedAt : Instant := 0

/-- A row of `outreach_broadcast_recipients`. Rows are kept in the order of their ids. -/
structure Recipient where
  id : Nat
  contactId : Option String
  address : String
  status : RecipientStatus := .queued
  skipReason : Option String := none
  failureReason : Option String := none
  attempts : Nat := 0
  messageIdHeader : Option String := none
  sentAt : Option Instant := none
  notBefore : Option Instant := none
  updatedAt : Instant := 0
  /-- The session that holds the row's lock between two of its statements. -/
  lockedBy : Option Nat := none

/-- `AudienceMember`. -/
structure AudienceMember where
  contactId : String
  name : Option String
  address : String

/-- `new ConflictException({ message, code })` of `assertStatus`. -/
def assertStatus (row : Broadcast) (allowed : List BroadcastStatus) (verb : String) :
    Except OutreachError Unit :=
  if row.status ∈ allowed then .ok ()
  else .error (.conflict ("outreach_broadcast_state: broadcast " ++ row.id ++ " is " ++
    row.status.text ++ "; only " ++ String.intercalate " or " (allowed.map (·.text)) ++
    " broadcasts can be " ++ verb) (some "outreach_broadcast_state"))

theorem assertStatus_ok {row : Broadcast} {allowed : List BroadcastStatus} {verb : String}
    (h : assertStatus row allowed verb = .ok ()) : row.status ∈ allowed := by
  by_contra hne
  rw [assertStatus, if_neg hne] at h
  cases h

/-- `requireText`. -/
def requireText (value field : String) : Except OutreachError String :=
  if isBlank value then .error (outreachInvalid (field ++ " must be non-empty"))
  else .ok (jsTrim value)

/-! ### The fingerprint -/

/-- What the fingerprint of a broadcast covers. -/
structure BroadcastContent where
  compiledHtml : String
  subject : String
  preheader : Option String
  scheduledSendAt : Option Instant
  channelId : String
  audienceCount : Nat

/-- The canonical text of a broadcast's content, before hashing. -/
def BroadcastContent.canonical (c : BroadcastContent) : String :=
  (Json.arr [
    .str c.compiledHtml,
    .str c.subject,
    jsonOrNull c.preheader,
    jsonOrNull (c.scheduledSendAt.map Instant.toISOString),
    .str c.channelId,
    .num (.ofNat c.audienceCount)]).stringify

/-- `broadcastFingerprint`. -/
def broadcastFingerprint (sha256Hex : String → String) (c : BroadcastContent) : String :=
  jsTake 32 (sha256Hex c.canonical)

/-- Two contents agree on everything a recipient could notice: the body, the header fields, the
channel and the size of the audience. -/
def BroadcastContent.Same (c e : BroadcastContent) : Prop :=
  c.compiledHtml = e.compiledHtml ∧ c.subject = e.subject ∧ c.preheader = e.preheader ∧
    c.channelId = e.channelId ∧ c.audienceCount = e.audienceCount

variable {sha256Hex : String → String}

/-- Two contents with one fingerprint are the same, as far as the digest tells their texts
apart. -/
theorem same_of_broadcastFingerprint_eq {c e : BroadcastContent}
    (hcollision : Distinguishes sha256Hex c.canonical e.canonical)
    (h : broadcastFingerprint sha256Hex c = broadcastFingerprint sha256Hex e) : c.Same e := by
  have hjson := Json.stringify_injective (hcollision h)
  simp only [Json.arr.injEq, List.cons.injEq, Json.str.injEq, Json.num.injEq] at hjson
  obtain ⟨hhtml, hsubject, hpreheader, -, hchannel, hcount, -⟩ := hjson
  exact ⟨hhtml, hsubject, jsonOrNull_injective hpreheader, hchannel,
    NumberText.ofNat_injective hcount⟩

/-! ### Editing and approving -/

/-- The fields of `updateBroadcast`; the texts are trimmed, the date is what its text parses to. -/
structure BroadcastPatch where
  name : Patch String := .keep
  segmentId : Patch String := .keep
  channelId : Patch String := .keep
  emailTemplateId : Patch (Option String) := .keep
  subject : Patch String := .keep
  preheader : Patch (Option String) := .keep
  content : Patch (EmailContentFormat × String) := .keep
  scheduledSendAt : Patch (Option Instant) := .keep
  maxPerHour : Patch (Option Nat) := .keep

/-- The texts of a patch that must not be blank. -/
def BroadcastPatch.check (patch : BroadcastPatch) : Except OutreachError Unit := do
  if let .set name := patch.name then discard (requireText name "name")
  if let .set subject := patch.subject then discard (requireText subject "subject")

/-- The write of `updateBroadcast`. -/
def Broadcast.edit (b : Broadcast) (patch : BroadcastPatch) (now : Instant) : Broadcast :=
  { b with
    name := match patch.name with | .keep => b.name | .set name => jsTrim name
    subject := match patch.subject with | .keep => b.subject | .set subject => jsTrim subject
    segmentId := patch.segmentId.apply b.segmentId
    channelId := patch.channelId.apply b.channelId
    emailTemplateId := patch.emailTemplateId.apply b.emailTemplateId
    preheader := match patch.preheader with
      | .keep => b.preheader
      | .set preheader => trimOrNull preheader
    contentFormat := match patch.content with | .keep => b.contentFormat | .set c => c.1
    body := match patch.content with | .keep => b.body | .set c => c.2
    scheduledSendAt := patch.scheduledSendAt.apply b.scheduledSendAt
    maxPerHour := patch.maxPerHour.apply b.maxPerHour
    updatedAt := now }

/-- What `approveBroadcast` computes before it writes: the compiled body and the audience of the
segment, or why either cannot be had; and the largest audience this deployment allows. -/
structure Preparation where
  compiledHtml : String := ""
  members : List AudienceMember := []
  problem : Option OutreachError := none
  maxAudience : Nat := 50000

/-- The content that an approval of the row read would fix. -/
def Broadcast.content (b : Broadcast) (prep : Preparation) : BroadcastContent where
  compiledHtml := prep.compiledHtml
  subject := b.subject
  preheader := b.preheader
  scheduledSendAt := b.scheduledSendAt
  channelId := b.channelId
  audienceCount := prep.members.length

/-- The checks of `approveBroadcast` on the row it read. -/
def approveBroadcastCheck (sha256Hex : String → String) (b : Broadcast) (actor : Actor)
    (fingerprint : String) (prep : Preparation) : Except OutreachError Unit := do
  if actor.type ≠ .user then
    throw (outreachInvalid ("broadcasts are approved by a signed-in person in the Munin " ++
      "dashboard, not by an agent or API key — this caller is " ++ actor.type.text))
  assertStatus b [.pending] "approved"
  if let some problem := prep.problem then throw problem
  if broadcastFingerprint sha256Hex (b.content prep) ≠ fingerprint then
    throw (.conflict ("outreach_broadcast_changed: broadcast " ++ b.id ++
      " changed since it was read (its content, template or audience size is different now); " ++
      "read it again and approve what it says now") (some "outreach_broadcast_changed"))
  if prep.members = [] then
    throw (.invalid "outreach_broadcast_empty_audience"
      ("outreach_broadcast_empty_audience: nobody in segment " ++ b.segmentId ++
        " can receive broadcast " ++ b.id ++ "; check the audience exclusions"))
  if prep.maxAudience < prep.members.length then
    throw (outreachInvalid ("broadcast " ++ b.id ++ " would go to " ++
      toString prep.members.length ++ " people; this deployment allows at most " ++
      toString prep.maxAudience ++ " per broadcast"))

/-- **What an approval has checked** when it gets to its write. -/
theorem approveBroadcastCheck_ok {b : Broadcast} {actor : Actor}
    {fingerprint : String} {prep : Preparation}
    (h : approveBroadcastCheck sha256Hex b actor fingerprint prep = .ok ()) :
    b.status = .pending ∧ broadcastFingerprint sha256Hex (b.content prep) = fingerprint := by
  have huser : actor.type = .user := by
    by_contra hne
    rw [approveBroadcastCheck, if_pos hne] at h
    cases h
  rw [approveBroadcastCheck, if_neg (not_not.2 huser)] at h
  cases hstatus : assertStatus b [.pending] "approved" with
  | error e =>
    rw [hstatus] at h
    cases h
  | ok _ =>
    refine ⟨by simpa using assertStatus_ok hstatus, ?_⟩
    by_contra hne
    rw [hstatus] at h
    cases hp : prep.problem <;> simp only [hp, if_pos hne] at h <;> cases h

/-- When an approved broadcast starts: the moment asked for, never one that is past. -/
def broadcastStart (b : Broadcast) (sendAt : Patch (Option Instant)) (now : Instant) : Instant :=
  match sendAt.apply b.scheduledSendAt with
  | some requested => if now < requested then requested else now
  | none => now

/-- The write of `approveBroadcast` on the broadcast. -/
def Broadcast.approve (b : Broadcast) (html fingerprint : String) (audienceCount : Nat)
    (start : Instant) (actor : Actor) (now : Instant) : Broadcast :=
  { b with
    status := .approved
    approvedHtml := some html
    approvedFingerprint := some fingerprint
    approvedAudienceCount := some audienceCount
    scheduledSendAt := some start
    cancelReason := none
    decidedByActorType := some actor.type
    decidedByActorId := some actor.id
    decidedAt := some now
    updatedAt := now }

/-- The recipients of an audience, with the ids from `first` on. -/
def recipientsOf (first : Nat) : List AudienceMember → List Recipient
  | [] => []
  | m :: ms =>
    { id := first, contactId := some m.contactId, address := m.address } ::
      recipientsOf (first + 1) ms

/-! ### Cancelling, starting and finishing -/

/-- The write of `cancelBroadcast` on an approved broadcast: back to review. -/
def Broadcast.returnToReview (b : Broadcast) (reason : String) (now : Instant) : Broadcast :=
  { b with
    status := .pending
    scheduledSendAt := none
    approvedHtml := none
    approvedFingerprint := none
    approvedAudienceCount := none
    decidedByActorType := none
    decidedByActorId := none
    decidedAt := none
    cancelReason := some reason
    updatedAt := now }

/-- The last write of `cancelBroadcast` on a broadcast that was started. -/
def Broadcast.cancel (b : Broadcast) (reason : String) (now : Instant) : Broadcast :=
  { b with
    status := .cancelled
    cancelReason := some reason
    completedAt := some now
    updatedAt := now }

/-- The write of `cancelBroadcast` on a queued recipient. -/
def Recipient.cancel (r : Recipient) (now : Instant) : Recipient :=
  { r with
    status := .skipped
    skipReason := some "cancelled"
    updatedAt := now
    lockedBy := none }

/-- The write of `dismissBroadcast`. -/
def Broadcast.dismiss (b : Broadcast) (reason : Option String) (actor : Actor) (now : Instant) :
    Broadcast :=
  { b with
    status := .dismissed
    dismissReason := trimOrNull reason
    decidedByActorType := some actor.type
    decidedByActorId := some actor.id
    decidedAt := some now
    updatedAt := now }

/-- The write of `startDueBroadcast`. -/
def Broadcast.start (b : Broadcast) (now : Instant) : Broadcast :=
  { b with status := .sending, startedAt := some now, updatedAt := now }

/-- The status a broadcast finishes with. -/
def finishStatus (recipients : List Recipient) : BroadcastStatus :=
  if recipients.any (·.status = .sent) || !recipients.any (·.status = .failed) then .sent
  else .failed

theorem finishStatus_terminal (recipients : List Recipient) :
    (finishStatus recipients).terminal = true := by
  unfold finishStatus
  split <;> rfl

/-- The write of `finishIfDone`. -/
def Broadcast.finish (b : Broadcast) (status : BroadcastStatus) (failureReason : Option String)
    (now : Instant) : Broadcast :=
  { b with
    status := status
    completedAt := some now
    failureReason :=
      if status = .failed then some "no recipient could be sent to" else failureReason
    updatedAt := now }

/-! ### Batches -/

/-- `SendDecision`: what the send policy says about one contact. -/
inductive SendDecision where
  | send
  | defer (until' : Instant) (reason : String)
  | skip (reason : String)
  deriving DecidableEq

/-- What a batch finds about the contact of a recipient. -/
structure ContactFacts where
  unsubscribed : Bool := false
  doNotContact : Bool := false
  consentLawfulBasis : Option String := none

/-- What a batch finds about a recipient: its contact if it still exists, whether mail to the
address bounces, and the send policy's decision. -/
structure ClaimFacts where
  contact : Option ContactFacts := none
  undeliverable : Bool := false
  timing : Option SendDecision := none

/-- Why a recipient is skipped, if it is. -/
def skipReason (f : ClaimFacts) : Option String :=
  match f.contact with
  | none => some "contact_removed"
  | some c =>
    if c.unsubscribed then some "unsubscribed"
    else if c.doNotContact then some "do_not_contact"
    else if !truthy c.consentLawfulBasis then some "no_lawful_basis"
    else if f.undeliverable then some "undeliverable"
    else match f.timing with
      | some (.defer _ _) => some "frequency_cap"
      | some (.skip reason) => some reason
      | _ => none

/-- What a batch does with a queued recipient. -/
inductive ClaimDecision where
  | hold (until' : Instant)
  | skip (reason : String)
  | send
  deriving DecidableEq

def claimDecision (f : ClaimFacts) : ClaimDecision :=
  let bySkipReason := match skipReason f with
    | some reason => .skip reason
    | none => .send
  match f.timing with
  | some (.defer until' reason) =>
    if reason ≠ "frequency_cap" then .hold until' else bySkipReason
  | _ => bySkipReason

/-- The write of `claimBatch` on a queued recipient. -/
def Recipient.claim (r : Recipient) (now : Instant) : ClaimDecision → Recipient
  | .hold until' => { r with notBefore := some until', updatedAt := now }
  | .skip reason => { r with status := .skipped, skipReason := some reason, updatedAt := now }
  | .send => { r with status := .sending, attempts := r.attempts + 1, updatedAt := now }

/-- Whether a batch may take a recipient: it is queued, its time has come, and no other session
holds its row. -/
def Recipient.claimable (r : Recipient) (now : Instant) : Bool :=
  r.status = .queued && (r.notBefore.all fun t => decide (t ≤ now)) && r.lockedBy.isNone

/-- The recipients a batch selects: the first claimable ones, in the order of their ids. -/
def selected (now : Instant) (allowance : Nat) (recipients : List Recipient) : List Recipient :=
  (recipients.filter (·.claimable now)).take allowance

/-- The selected recipients that the batch sends to. -/
def claimed (facts : Nat → ClaimFacts) (now : Instant) (allowance : Nat)
    (recipients : List Recipient) : List Recipient :=
  (selected now allowance recipients).filter fun r => claimDecision (facts r.id) = .send

/-- The recipients after a batch: each selected one as its decision has it. -/
def afterClaim (facts : Nat → ClaimFacts) (now : Instant) (allowance : Nat)
    (recipients : List Recipient) : List Recipient :=
  recipients.map fun r =>
    if r.id ∈ (selected now allowance recipients).map (·.id) then
      r.claim now (claimDecision (facts r.id))
    else r

/-- `hourlyAllowance`, cut to the budget of the tick. -/
def claimAllowance (b : Broadcast) (recipients : List Recipient) (now : Instant) (budget : Nat) :
    Nat :=
  match b.maxPerHour with
  | none | some 0 => budget
  | some max =>
    min budget (max - (recipients.filter fun r =>
      r.sentAt.any fun t => decide (now - 60 * 60 * 1000 ≤ t)).length)

/-- The number of times a recipient is tried. -/
def MAX_BROADCAST_SEND_ATTEMPTS : Nat := 3

/-- `BulkEmailResult`: a message id, or why there is none. -/
structure BulkEmailResult where
  key : Nat
  outcome : Except String String

/-- The write of `recordBatch` for a result on its recipient. -/
def Recipient.record (r : Recipient) (now : Instant) : Except String String → Recipient
  | .ok messageId =>
    { r with
      status := .sent
      messageIdHeader := some messageId
      sentAt := some now
      failureReason := none
      updatedAt := now }
  | .error error =>
    { r with
      status := if MAX_BROADCAST_SEND_ATTEMPTS ≤ r.attempts then .failed else .queued
      failureReason := some error
      updatedAt := now }

/-- `recordBatch`: each result on the recipient with its key. -/
def record (now : Instant) (recipients : List Recipient) (results : List BulkEmailResult) :
    List Recipient :=
  results.foldl (fun rs result =>
    rs.map fun r => if r.id = result.key then r.record now result.outcome else r) recipients

/-- What the results of a batch make of one recipient. -/
def Recipient.recorded (now : Instant) (results : List BulkEmailResult) (r : Recipient) :
    Recipient :=
  results.foldl (fun r result =>
    if r.id = result.key then r.record now result.outcome else r) r

/-- The results of a batch act on each recipient by itself. -/
theorem record_eq_map (now : Instant) (recipients : List Recipient)
    (results : List BulkEmailResult) :
    record now recipients results = recipients.map (·.recorded now results) := by
  induction results generalizing recipients with
  | nil => simp [record, Recipient.recorded]
  | cons result results ih =>
    rw [record, List.foldl_cons]
    exact (ih _).trans (List.map_map ..)

/-- The age after which a claim whose batch is not recorded is given up. -/
def STALE_SENDING_MINUTES : Int := 15

/-- The write of `recoverStaleSends` on a recipient. -/
def Recipient.recover (r : Recipient) (now : Instant) : Recipient :=
  if r.status = .sending ∧ r.updatedAt < now - STALE_SENDING_MINUTES * 60 * 1000 then
    { r with
      status := .failed
      failureReason := some ("delivery outcome unknown: the send was interrupted mid-batch, " ++
        "and it is not retried so nobody gets the message twice")
      updatedAt := now }
  else r

/-! ### What the writes leave alone -/

/-- A write to recipients that keeps who they are. -/
def KeepsIdentity (f : Recipient → Recipient) : Prop :=
  ∀ r, (f r).id = r.id ∧ (f r).address = r.address

theorem Recipient.cancel_keeps (now : Instant) : KeepsIdentity (·.cancel now) :=
  fun _ => ⟨rfl, rfl⟩

theorem Recipient.claim_keeps (now : Instant) (decision : Recipient → ClaimDecision) :
    KeepsIdentity fun r => r.claim now (decision r) := by
  intro r
  dsimp only
  generalize decision r = c
  cases c <;> exact ⟨rfl, rfl⟩

theorem Recipient.record_keeps (now : Instant) (outcome : Except String String) :
    KeepsIdentity (·.record now outcome) := by
  intro r
  cases outcome <;> exact ⟨rfl, rfl⟩

theorem Recipient.recover_keeps (now : Instant) : KeepsIdentity (·.recover now) := by
  intro r
  dsimp only [Recipient.recover]
  split <;> exact ⟨rfl, rfl⟩

variable {f : Recipient → Recipient}

theorem KeepsIdentity.ite (hf : KeepsIdentity f) (c : Recipient → Prop) [∀ r, Decidable (c r)] :
    KeepsIdentity fun r => if c r then f r else r := by
  intro r
  dsimp only
  split
  · exact hf r
  · exact ⟨rfl, rfl⟩

theorem Recipient.recorded_keeps (now : Instant) (results : List BulkEmailResult) :
    KeepsIdentity (·.recorded now results) := by
  induction results with
  | nil => exact fun _ => ⟨rfl, rfl⟩
  | cons result results ih =>
    intro r
    have hstep := (Recipient.record_keeps now result.outcome).ite (·.id = result.key) r
    exact ⟨(ih _).1.trans hstep.1, (ih _).2.trans hstep.2⟩

theorem KeepsIdentity.map_address (hf : KeepsIdentity f)
    (rs : List Recipient) : (rs.map f).map (·.address) = rs.map (·.address) := by
  rw [List.map_map]
  exact List.map_congr_left fun r _ => (hf r).2

theorem KeepsIdentity.map_id (hf : KeepsIdentity f)
    (rs : List Recipient) : (rs.map f).map (·.id) = rs.map (·.id) := by
  rw [List.map_map]
  exact List.map_congr_left fun r _ => (hf r).1

theorem afterClaim_keeps (facts : Nat → ClaimFacts) (now : Instant) (ids : List Nat) :
    KeepsIdentity fun r => if r.id ∈ ids then r.claim now (claimDecision (facts r.id)) else r :=
  (Recipient.claim_keeps now fun r => claimDecision (facts r.id)).ite (·.id ∈ ids)

/-- A batch claims recipients of the broadcast that are waiting their turn. -/
theorem mem_claimed {facts : Nat → ClaimFacts} {now : Instant} {allowance : Nat}
    {recipients : List Recipient} {r : Recipient} (h : r ∈ claimed facts now allowance recipients) :
    r ∈ recipients ∧ r.claimable now = true ∧ r ∈ selected now allowance recipients ∧
      claimDecision (facts r.id) = .send := by
  obtain ⟨hsel, hsend⟩ := List.mem_filter.1 h
  obtain ⟨hmem, hclaimable⟩ := List.mem_filter.1 (List.mem_of_mem_take hsel)
  exact ⟨hmem, hclaimable, hsel, by simpa using hsend⟩

end Munin
