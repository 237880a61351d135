import Munin.Common
import Munin.Foundations.Instant

/-!
# Outreach proposals: the row and the pure parts of its operations

A proposal is a drafted message waiting for a decision. This file has the row, the fingerprint an
approver submits, and the checks each operation makes on the row it read; how the operations read
and write it concurrently is `Munin.Outreach.ProposalSessions`.

* **`draftFingerprint`** — the digest of the canonical text of a draft. The digest is a parameter
  `sha256Hex`, the hexadecimal SHA-256 of a text.
* **`approveCheck`, `resolveAuthorizedSendAt`** — the checks of `approveProposal` and the moment
  the message goes out.
* **`revise`** — the patch of `applyRevision`.
-/

namespace Munin

open Foundations

/-! ### The row -/

/-- `'pending' | 'approved' | 'sent' | 'failed' | 'dismissed' | 'withdrawn'`. -/
inductive ProposalStatus where
  | pending
  | approved
  | sent
  | failed
  | dismissed
  | withdrawn
  deriving DecidableEq

/-- The status as the column stores it. -/
def ProposalStatus.text : ProposalStatus → String
  | .pending => "pending"
  | .approved => "approved"
  | .sent => "sent"
  | .failed => "failed"
  | .dismissed => "dismissed"
  | .withdrawn => "withdrawn"

/-- The statuses in which nothing more should happen to a proposal. -/
def ProposalStatus.terminal : ProposalStatus → Bool
  | .pending | .approved => false
  | .sent | .failed | .dismissed | .withdrawn => true

/-- A row of `outreach_proposals`. -/
structure Proposal where
  id : String
  campaignId : Option String := none
  journeyId : Option String := none
  contactId : String
  kind : String
  journeyEnrollmentId : Option String := none
  draftSubject : Option String := none
  draftBody : String
  originalDraftBody : Option String := none
  proposedSendAt : Option Instant := none
  scheduledSendAt : Option Instant := none
  sendAttempts : Nat := 0
  status : ProposalStatus := .pending
  decidedByActorType : Option ActorType := none
  decidedByActorId : Option String := none
  decidedAt : Option Instant := none
  firstViewedAt : Option Instant := none
  viewedByActorId : Option String := none
  revisionCount : Nat := 0
  lastRevisedAt : Option Instant := none
  lastRevisionReason : Option String := none
  revisedByActorType : Option ActorType := none
  revisedByActorId : Option String := none
  revisedAfterReviewAt : Option Instant := none
  sentAt : Option Instant := none
  failureReason : Option String := none
  dismissReason : Option String := none
  withdrawReason : Option String := none
  updatedAt : Instant := 0
  deriving DecidableEq

/-! ### Errors -/

/-- How an operation refuses. -/
inductive OutreachError where
  /-- `OutreachInvalidError`: its code and its message. -/
  | invalid (code message : String)
  /-- `ConflictException`, with a code where the code gives one. -/
  | conflict (message : String) (code : Option String := none)
  /-- `NotFoundException`. -/
  | notFound (message : String)

/-- `new OutreachInvalidError(message)`, with the default code. -/
def outreachInvalid (message : String) : OutreachError :=
  .invalid "outreach_invalid" ("outreach_invalid: " ++ message)

/-- The refusal of an operation that wants the proposal in another status. -/
def notInStatus (p : Proposal) (wanted : String) : OutreachError :=
  outreachInvalid ("proposal " ++ p.id ++ " is " ++ p.status.text ++ ", " ++ wanted)

/-! ### The fingerprint -/

/-- What the fingerprint of a draft covers. -/
structure FingerprintableDraft where
  campaignId : Option String
  journeyId : Option String
  contactId : String
  kind : String
  draftSubject : Option String
  draftBody : String
  proposedSendAt : Option Instant
  deriving DecidableEq

/-- The draft a row carries. -/
def Proposal.draft (p : Proposal) : FingerprintableDraft where
  campaignId := p.campaignId
  journeyId := p.journeyId
  contactId := p.contactId
  kind := p.kind
  draftSubject := p.draftSubject
  draftBody := p.draftBody
  proposedSendAt := p.proposedSendAt

/-- The canonical text of a draft, before hashing. -/
def FingerprintableDraft.canonical (d : FingerprintableDraft) : String :=
  (Json.arr [
    jsonOrNull (d.campaignId <|> d.journeyId),
    .str d.contactId,
    .str d.kind,
    jsonOrNull d.draftSubject,
    .str d.draftBody,
    jsonOrNull (d.proposedSendAt.map Instant.toISOString)]).stringify

/-- `draftFingerprint`: the first 32 hexadecimal digits of the digest of the canonical text. -/
def draftFingerprint (sha256Hex : String → String) (d : FingerprintableDraft) : String :=
  jsTake 32 (sha256Hex d.canonical)

variable {d e : FingerprintableDraft}

/-- **The canonical text carries the subject and the body.** -/
theorem draft_eq_of_canonical_eq (h : d.canonical = e.canonical) :
    d.draftSubject = e.draftSubject ∧ d.draftBody = e.draftBody := by
  have hjson := Json.stringify_injective h
  simp only [Json.arr.injEq, List.cons.injEq, Json.str.injEq] at hjson
  exact ⟨jsonOrNull_injective hjson.2.2.2.1, hjson.2.2.2.2.1⟩

variable {sha256Hex : String → String}

/-- Two drafts with one fingerprint have the same subject and body, as far as the digest tells
their texts apart. -/
theorem draft_eq_of_fingerprint_eq (hcollision : Distinguishes sha256Hex d.canonical e.canonical)
    (h : draftFingerprint sha256Hex d = draftFingerprint sha256Hex e) :
    d.draftSubject = e.draftSubject ∧ d.draftBody = e.draftBody :=
  draft_eq_of_canonical_eq (hcollision h)

/-! ### Approval -/

/-- The `sendAt` of an approval: omitted, `null`, or a text that parses to a date or to none. -/
inductive SendAtChoice where
  | omitted
  | now
  | at (parsed : Option Instant)

/-- `resolveAuthorizedSendAt`: when the approver lets the message go out; `none` is at once. -/
def resolveAuthorizedSendAt (p : Proposal) (explicit : SendAtChoice) (now : Instant) :
    Except OutreachError (Option Instant) :=
  match explicit with
  | .now => .ok none
  | .at none => .error (outreachInvalid "sendAt must be an ISO-8601 timestamp")
  | .at (some at') =>
    if at' ≤ now then
      .error (outreachInvalid ("sendAt must be in the future — omit it to send now, " ++
        "or pass null to override a scheduled draft"))
    else .ok (some at')
  | .omitted =>
    match p.proposedSendAt with
    | none => .ok none
    | some proposed => if proposed ≤ now then .ok none else .ok (some proposed)

/-- The channels on which only a signed-in person approves. -/
def requiresHumanApproval : ChannelType → Bool
  | .voice | .sms => true
  | .email | .chat => false

/-- `assertHumanApprovalAllowed`. -/
def assertHumanApprovalAllowed (channel : ChannelType) (actor : Actor) :
    Except OutreachError Unit :=
  if requiresHumanApproval channel && actor.type != .user then
    .error (outreachInvalid (channel.text ++
      " proposals are approved by a signed-in person in the Munin dashboard, " ++
      "not by an agent or API key — this caller is " ++ actor.type.text))
  else .ok ()

/-- What the send policy answers: send, wait until a moment, or refuse with an error. -/
inductive GateAnswer where
  | send
  | defer (until' : Instant)
  | refuse (error : OutreachError)

/-- What an approval finds around the proposal: the clock, the channel the row resolves to, the
send policy's answer and, for campaigns that only call in a window, why it is closed. -/
structure Surroundings where
  now : Instant := 0
  channel : ChannelType := .email
  gate : GateAnswer := .send
  windowClosed : Option String := none

/-- The checks of `approveProposal` on the row it read, up to the write: when the message goes
out, `none` for at once. -/
def approveCheck (sha256Hex : String → String) (p : Proposal) (fingerprint : String)
    (sendAt : SendAtChoice) (actor : Actor) (env : Surroundings) :
    Except OutreachError (Option Instant) := do
  if p.status ≠ .pending then throw (notInStatus p "not pending")
  if fingerprint ≠ draftFingerprint sha256Hex p.draft then
    throw (.conflict ("outreach_conflict: proposal " ++ p.id ++
      " changed after the draft being approved was rendered — " ++
      "nothing was sent and it stays pending; re-read the current draft and approve that"))
  assertHumanApprovalAllowed env.channel actor
  let authorized ← resolveAuthorizedSendAt p sendAt env.now
  let at' ← match env.gate with
    | .send => pure authorized
    | .refuse e => throw e
    | .defer until' => match authorized with
      | none => pure (some until')
      | some a => pure (if a < until' then some until' else some a)
  match at', env.windowClosed with
  | none, some closed => throw (outreachInvalid closed)
  | _, _ => pure at'

/-- **What an approval has checked** when it gets to its write: the row it read was pending and
carried the draft the approver submitted. -/
theorem approveCheck_ok {p : Proposal} {fingerprint : String}
    {sendAt : SendAtChoice} {actor : Actor} {env : Surroundings} {at' : Option Instant}
    (h : approveCheck sha256Hex p fingerprint sendAt actor env = .ok at') :
    p.status = .pending ∧ draftFingerprint sha256Hex p.draft = fingerprint := by
  have hstatus : p.status = .pending := by
    by_contra hne
    rw [approveCheck, if_pos hne] at h
    cases h
  refine ⟨hstatus, ?_⟩
  by_contra hne
  rw [approveCheck, if_neg (not_not.2 hstatus), if_pos (Ne.symm hne)] at h
  cases h

/-- `stampApproval`: the decision written on the row; a message that is to wait becomes
`approved`. -/
def stampApproval (p : Proposal) (actor : Actor) (sendAt : Option Instant) (now : Instant) :
    Proposal :=
  { p with
    status := if sendAt.isSome then .approved else p.status
    scheduledSendAt := if sendAt.isSome then sendAt else p.scheduledSendAt
    decidedByActorType := some actor.type
    decidedByActorId := some actor.id
    decidedAt := some now
    updatedAt := now }

@[simp]
theorem stampApproval_draft (p : Proposal) (actor : Actor) (sendAt : Option Instant)
    (now : Instant) : (stampApproval p actor sendAt now).draft = p.draft := rfl

/-- The row once its message has been handed over. -/
def markSent (p : Proposal) (now : Instant) : Proposal :=
  { p with status := .sent, sentAt := some now, updatedAt := now }

/-! ### Revision -/

/-- A field of a request that may be left out. -/
inductive Patch (α : Type) where
  | keep
  | set (value : α)
  deriving DecidableEq

/-- The field after the request. -/
def Patch.apply {α : Type} : Patch α → α → α
  | .keep, old => old
  | .set new, _ => new

/-- The input of `applyRevision`; a date is what its text parses to. -/
structure Revision where
  draftSubject : Patch (Option String) := .keep
  draftBody : Patch String := .keep
  proposedSendAt : Patch (Option (Option Instant)) := .keep
  reason : Option String := none

/-- The checks of `applyRevision` on the row it read. -/
def reviseCheck (p : Proposal) (r : Revision) : Except OutreachError Unit := do
  if p.status ≠ .pending then throw (notInStatus p "not pending")
  if let .set body := r.draftBody then
    if isBlank body then throw (outreachInvalid "draftBody cannot be empty")
  if r.proposedSendAt = .set (some none) then
    throw (outreachInvalid "proposedSendAt must be an ISO-8601 timestamp")

/-- The patch of `applyRevision`, computed from the row that was read and applied to the row that
is there: the counters and the kept original come from the former. -/
def revise (read row : Proposal) (r : Revision) (actor : Actor) (now : Instant) : Proposal :=
  { row with
    revisionCount := read.revisionCount + 1
    lastRevisedAt := some now
    lastRevisionReason := r.reason
    revisedByActorType := some actor.type
    revisedByActorId := some actor.id
    revisedAfterReviewAt :=
      if read.firstViewedAt.isSome && read.viewedByActorId != some actor.id then some now
      else row.revisedAfterReviewAt
    draftSubject := r.draftSubject.apply row.draftSubject
    draftBody := r.draftBody.apply row.draftBody
    originalDraftBody :=
      if r.draftBody ≠ .keep && actor.type == .user && read.originalDraftBody.isNone then
        some read.draftBody
      else row.originalDraftBody
    proposedSendAt := match r.proposedSendAt with
      | .keep => row.proposedSendAt
      | .set date => date.join
    updatedAt := now }

/-! ### The other decisions -/

/-- The number of failed sends after which a proposal is given up. -/
def MAX_SEND_ATTEMPTS : Nat := 5

/-- Whether a failure recorded on the row read gives the proposal up. -/
def givesUp (read : Proposal) (terminal : Bool) : Bool :=
  terminal || decide (MAX_SEND_ATTEMPTS ≤ read.sendAttempts + 1)

/-- The write of `recordScheduledSendFailure`. -/
def recordFailure (read row : Proposal) (reason : String) (terminal : Bool) (now : Instant) :
    Proposal :=
  { row with
    sendAttempts := read.sendAttempts + 1
    status := if givesUp read terminal then .failed else row.status
    failureReason := if givesUp read terminal then some reason else row.failureReason
    updatedAt := now }

/-- The write of `cancelScheduledSend`. -/
def unschedule (row : Proposal) (now : Instant) : Proposal :=
  { row with
    status := .pending
    scheduledSendAt := none
    sendAttempts := 0
    decidedByActorType := none
    decidedByActorId := none
    decidedAt := none
    updatedAt := now }

/-- The write of `dismissProposal`. -/
def dismiss (row : Proposal) (reason : Option String) (actor : Actor) (now : Instant) :
    Proposal :=
  { row with
    status := .dismissed
    dismissReason := reason
    decidedByActorType := some actor.type
    decidedByActorId := some actor.id
    decidedAt := some now
    updatedAt := now }

/-- The write of `withdrawProposal`. -/
def withdraw (row : Proposal) (reason : String) (actor : Actor) (now : Instant) : Proposal :=
  { row with
    status := .withdrawn
    withdrawReason := some reason
    decidedByActorType := some actor.type
    decidedByActorId := some actor.id
    decidedAt := some now
    updatedAt := now }

/-- The write of `withdrawRun` on one row that is still open. -/
def withdrawByRun (row : Proposal) (reason : String) (now : Instant) : Proposal :=
  { row with
    status := .withdrawn
    withdrawReason := some reason
    scheduledSendAt := none
    updatedAt := now }

end Munin
