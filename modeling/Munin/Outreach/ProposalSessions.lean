import Munin.Foundations.Sessions
import Munin.Outreach.Proposal

/-!
# The operations on a proposal, as concurrent sessions

Every request and every tick of the send worker runs in one read-committed transaction and takes
no lock on the proposal before it writes: it reads the row, checks it, and writes it in a later
statement that names only the row's id. This file splits each operation at exactly these
statements.

* **Reads** take a snapshot; whatever else the operation consults (the clock, the send policy, the
  calling window, the channel) is an argument of the session.
* **`approving`** is one statement here: the `UPDATE` of `stampApproval` holds the row's lock until
  the transaction ends, so an immediate delivery and its `sent` status land together.
* **`sendScheduledProposal`** delivers the snapshot it read and only then writes. A message is
  committed together with the status; a phone call is placed at once, before any write.
* **`propose`** inserts the row and, for a step that sends without review, approves it in the same
  transaction, before any other session can see it.

The store keeps, besides the row, what the contact received and what happened in which order.
-/

namespace Munin

open Foundations

/-- The row, with the fingerprint its standing approval was given with: `none` for an automatic
approval. The column does not exist; it is kept here to say what an approver submitted. -/
structure Row where
  proposal : Proposal
  approvedWith : Option String := none

/-- What happened to a proposal, as far as its contact is concerned. -/
inductive Event where
  /-- A delivery was begun. -/
  | began
  /-- The contact was called, or a message was committed for sending. -/
  | delivered
  /-- The proposal was dismissed or withdrawn. -/
  | closed (status : ProposalStatus)

/-- One proposal and its history. -/
structure Desk where
  /-- The row, once it has been inserted. -/
  row : Option Row := none
  /-- The rows that were delivered, as they were delivered, oldest first. -/
  deliveries : List Row := []
  /-- What happened, oldest first. -/
  history : List Event := []
  /-- The session that has placed a call and not yet written its result. -/
  calling : Option ℕ := none

/-- How handing the message over ends: it goes out; it is refused and the transaction rolls back;
or, for a call, it is placed and the transaction rolls back afterwards. -/
inductive Handover where
  | done
  | refused
  | lost
  deriving DecidableEq

/-- The automatic approval of a new proposal: what the send policy, the kind handler and the
calling window say, and how the delivery ends. -/
structure AutoApproval where
  /-- Why the send policy skips the contact. -/
  blocked : Option String := none
  /-- `allowsAutomaticApproval` of the kind handler. -/
  allowed : Bool := true
  /-- The moment asked for. -/
  sendAt : Option Instant := none
  actor : Actor
  env : Surroundings := {}
  handing : Handover := .done

/-- The statements of the operations. Those named like an operation are its first statement; the
others are the writes that follow a read. -/
inductive Point where
  | propose (row : Proposal) (auto : Option AutoApproval)
  | approveProposal (fingerprint : String) (sendAt : SendAtChoice) (actor : Actor)
      (env : Surroundings) (handing : Handover)
  | approving (read : Proposal) (fingerprint : String) (actor : Actor) (at' : Option Instant)
      (env : Surroundings) (handing : Handover)
  | sendScheduledProposal (env : Surroundings) (handing : Handover)
  | deferring (until' now : Instant)
  | delivering (read : Row) (env : Surroundings) (handing : Handover)
  | recording (read : Row) (env : Surroundings)
  | recordScheduledSendFailure (reason : String) (terminal : Bool) (now : Instant)
  | failing (read : Proposal) (reason : String) (terminal : Bool) (now : Instant)
  | cancelScheduledSend (reason : String) (now : Instant)
  | cancelling (now : Instant)
  | dismissProposal (reason : Option String) (actor : Actor) (now : Instant)
  | dismissing (reason : Option String) (actor : Actor) (now : Instant)
  | withdrawProposal (reason : String) (actor : Actor) (now : Instant)
  | withdrawing (reason : String) (actor : Actor) (now : Instant)
  | applyRevision (revision : Revision) (actor : Actor) (now : Instant)
  | revising (read : Proposal) (revision : Revision) (actor : Actor) (now : Instant)
  | withdrawRun (enrollmentId reason : String) (now : Instant)

/-- The points at which a request or a tick begins. -/
def Point.isEntry : Point → Bool
  | .propose .. | .approveProposal .. | .sendScheduledProposal .. | .recordScheduledSendFailure ..
  | .cancelScheduledSend .. | .dismissProposal .. | .withdrawProposal .. | .applyRevision ..
  | .withdrawRun .. => true
  | .approving .. | .deferring .. | .delivering .. | .recording .. | .failing .. | .cancelling ..
  | .dismissing .. | .withdrawing .. | .revising .. => false

/-! ### Statements -/

/-- An `UPDATE` that names only the row's id. -/
def Desk.update (d : Desk) (f : Row → Row) : Desk :=
  { d with row := d.row.map f }

/-- The row with its proposal rewritten and its approval kept. -/
def Row.map (f : Proposal → Proposal) (r : Row) : Row :=
  { r with proposal := f r.proposal }

/-- A delivery that goes out and is written as sent by one statement. -/
def Desk.deliver (d : Desk) (r : Row) (now : Instant) : Desk :=
  { d with
    row := some (r.map (markSent · now))
    deliveries := d.deliveries ++ [r]
    history := d.history ++ [.began, .delivered] }

/-- A call that goes out while the row stays as it is. -/
def Desk.call (d : Desk) (r : Row) : Desk :=
  { d with deliveries := d.deliveries ++ [r], history := d.history ++ [.began, .delivered] }

/-- A dismissal or a withdrawal. -/
def Desk.close (d : Desk) (status : ProposalStatus) (f : Proposal → Proposal) : Desk :=
  { d.update (Row.map f) with history := d.history ++ [.closed status] }

/-- The checks of `approveAutomatically` on the new row. -/
def autoApproveCheck (p : Proposal) (a : AutoApproval) : Except OutreachError (Option Instant) :=
  if p.status ≠ .pending then .error (notInStatus p "not pending")
  else if a.env.channel = .voice ∨ a.allowed = false then
    .error (outreachInvalid (a.env.channel.text ++ " proposal " ++ p.id ++
      " is approved by a signed-in person, never automatically"))
  else .ok (a.sendAt <|> a.env.windowClosed.map fun _ => a.env.now)

/-- The insertion of a proposal with its automatic approval, one transaction: a refusal rolls the
insertion back. -/
def Desk.propose (d : Desk) (p : Proposal) : Option AutoApproval → Desk
  | none => { d with row := some { proposal := p } }
  | some a =>
    match a.blocked with
    | some reason => { d with row := some { proposal := recordFailure p p reason true a.env.now } }
    | none =>
      match autoApproveCheck p a with
      | .error _ => d
      | .ok (some at') =>
        { d with row := some { proposal := stampApproval p a.actor (some at') a.env.now } }
      | .ok none =>
        match a.handing with
        | .done => d.deliver { proposal := stampApproval p a.actor none a.env.now } a.env.now
        | .refused | .lost => d

/-- The write of an approval: a message that is to wait is stamped, one that is not is stamped and
delivered as the stamped row reads. -/
def Desk.approve (d : Desk) (r : Row) (fingerprint : String) (actor : Actor)
    (at' : Option Instant) (env : Surroundings) (handing : Handover) : Desk :=
  let stamped : Row := ⟨stampApproval r.proposal actor at' env.now, some fingerprint⟩
  match at', handing with
  | some _, _ => { d with row := some stamped }
  | none, .done => d.deliver stamped env.now
  | none, .refused => d
  | none, .lost => if env.channel = .voice then d.call stamped else d

/-- Going on from a read: the session ends where there is no row. -/
def Desk.read (d : Desk) (k : Row → Option Point) : Desk × Option Point :=
  (d, d.row.bind k)

/-- The next statement of session `t` at each point. -/
def Point.exec (sha256Hex : String → String) (t : ℕ) (p : Point) (d : Desk) :
    Desk × Option Point :=
  match p with
  | .propose row auto =>
    match d.row with
    | some _ => (d, none)
    | none => (d.propose row auto, none)
  | .approveProposal fingerprint sendAt actor env handing => d.read fun r =>
    match approveCheck sha256Hex r.proposal fingerprint sendAt actor env with
    | .error _ => none
    | .ok at' => some (.approving r.proposal fingerprint actor at' env handing)
  | .approving _ fingerprint actor at' env handing =>
    match d.row with
    | none => (d, none)
    | some r => (d.approve r fingerprint actor at' env handing, none)
  | .sendScheduledProposal env handing => d.read fun r =>
    if r.proposal.status ≠ .approved then none
    else if env.windowClosed.isSome then none
    else match env.gate with
      | .refuse _ => none
      | .defer until' => some (.deferring until' env.now)
      | .send => some (.delivering r env handing)
  | .deferring until' now =>
    (d.update (Row.map fun p => { p with scheduledSendAt := some until', updatedAt := now }), none)
  | .delivering read env handing =>
    match handing, env.channel with
    | .refused, _ => (d, none)
    | .done, .voice => ({ d.call read with calling := some t }, some (.recording read env))
    | .lost, .voice => (d.call read, none)
    | .done, _ => ({ d with history := d.history ++ [.began] }, some (.recording read env))
    | .lost, _ => ({ d with history := d.history ++ [.began] }, none)
  | .recording read env =>
    match env.channel with
    | .voice => ({ d.update (Row.map (markSent · env.now)) with calling := none }, none)
    | _ => ({ d.update (Row.map (markSent · env.now)) with
        deliveries := d.deliveries ++ [read]
        history := d.history ++ [.delivered] }, none)
  | .recordScheduledSendFailure reason terminal now => d.read fun r =>
    some (.failing r.proposal reason terminal now)
  | .failing read reason terminal now =>
    (d.update (Row.map fun p => recordFailure read p reason terminal now), none)
  | .cancelScheduledSend reason now => d.read fun r =>
    if isBlank reason then none
    else if r.proposal.status ≠ .approved then none
    else some (.cancelling now)
  | .cancelling now =>
    (d.update fun r => { proposal := unschedule r.proposal now, approvedWith := none }, none)
  | .dismissProposal reason actor now => d.read fun r =>
    if r.proposal.status ≠ .pending then none else some (.dismissing reason actor now)
  | .dismissing reason actor now => (d.close .dismissed (dismiss · reason actor now), none)
  | .withdrawProposal reason actor now => d.read fun r =>
    if isBlank reason then none
    else if r.proposal.status ≠ .pending then none
    else some (.withdrawing reason actor now)
  | .withdrawing reason actor now => (d.close .withdrawn (withdraw · reason actor now), none)
  | .applyRevision revision actor now => d.read fun r =>
    match reviseCheck r.proposal revision with
    | .error _ => none
    | .ok _ => some (.revising r.proposal revision actor now)
  | .revising read revision actor now =>
    (d.update (Row.map fun p => revise read p revision actor now), none)
  | .withdrawRun enrollmentId reason now =>
    match d.row with
    | none => (d, none)
    | some r =>
      if r.proposal.journeyEnrollmentId = some enrollmentId ∧ r.proposal.status.terminal = false
      then (d.close .withdrawn (withdrawByRun · reason now), none)
      else (d, none)

/-- The sessions on a proposal. A new row is pending. -/
def proposalSessions (sha256Hex : String → String) : Sessions Desk Point where
  entry p := p.isEntry && match p with
    | .propose row _ => row.status = .pending
    | _ => true
  exec t p d := some (p.exec sha256Hex t d)

/-- A proposal's life begins before its row is there. -/
def Desk.fresh (d : Desk) : Prop :=
  d = {}

end Munin
