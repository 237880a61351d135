import Munin.Foundations.Sessions
import Munin.Outreach.Broadcast

/-!
# The operations on a broadcast, as concurrent sessions

Requests on a broadcast and the ticks of the broadcast worker run in read-committed transactions.
As for proposals, an operation reads the broadcast in one statement and writes it in another; here
the writes also go to the recipients, and a batch that was claimed is out at the provider between
two transactions of its worker.

* **`cancelBroadcast`** of a started broadcast first marks the queued recipients, and holds their
  locks until its last statement writes the broadcast's status and everything is committed.
* **`claimBatch`** reads the broadcast and then, in one statement here, selects, locks and writes
  its recipients; the messages carry the fields of the broadcast as it was read.
* **`handing`, `recordBatch`** — the batch goes to the provider, which answers once per message;
  the answers are written by a later transaction.
* **`finishIfDone`** reads, counts what is open, counts what was sent, and writes.

The store keeps, besides the rows, what the standing approval fixed, the messages handed to the
provider, and which session has which recipients out.
-/

namespace Munin

open Foundations

/-- What an approval fixed: the fingerprint that was submitted, the content it was compared with,
and the audience. -/
structure BroadcastApproval where
  fingerprint : String
  content : BroadcastContent
  members : List AudienceMember

/-- A message as it is handed to the provider, before it is personalised, with the approval that
stood when its broadcast was read. -/
structure BroadcastMessage where
  recipient : Nat
  address : String
  subject : String
  preheader : Option String
  html : String
  channelId : String
  approval : Option BroadcastApproval

/-- One broadcast, its recipients and its history. -/
structure BroadcastDesk where
  broadcast : Broadcast
  recipients : List Recipient := []
  /-- The id of the next recipient to be inserted. -/
  nextId : Nat := 0
  /-- What the standing approval fixed. -/
  approval : Option BroadcastApproval := none
  /-- The messages handed to the provider, oldest first. -/
  messages : List BroadcastMessage := []
  /-- The recipients claimed and not yet handed over, with the session that claimed them. -/
  ready : List (ℕ × Nat) := []
  /-- The recipients handed over and not yet recorded, with their session. -/
  out : List (ℕ × Nat) := []

/-- What a batch finds around the broadcast, and what the provider will answer. -/
structure BatchEnv where
  /-- The channel is an active email channel. -/
  channelActive : Bool := true
  facts : Nat → ClaimFacts := fun _ => {}
  outcome : Nat → Except String String
  now : Instant := 0
  recordedAt : Instant := 0

/-- The statements of the operations. -/
inductive BroadcastPoint where
  | updateBroadcast (patch : BroadcastPatch) (now : Instant)
  | updating (patch : BroadcastPatch) (now : Instant)
  | approveBroadcast (fingerprint : String) (sendAt : Patch (Option Instant)) (actor : Actor)
      (prep : Preparation) (now : Instant)
  | approving (read : Broadcast) (fingerprint : String) (sendAt : Patch (Option Instant))
      (actor : Actor) (prep : Preparation) (now : Instant)
  | dismissBroadcast (reason : Option String) (actor : Actor) (now : Instant)
  | dismissing (reason : Option String) (actor : Actor) (now : Instant)
  | cancelBroadcast (reason : String) (commits : Bool) (now : Instant)
  | returning (reason : String) (commits : Bool) (now : Instant)
  | sweeping (reason : String) (commits : Bool) (now : Instant)
  | cancelling (reason : String) (commits : Bool) (now : Instant)
  | startDueBroadcast (now : Instant)
  | claimBatch (budget : Nat) (env : BatchEnv)
  | claiming (read : Broadcast) (approval : Option BroadcastApproval) (budget : Nat)
      (env : BatchEnv)
  | handing (batch : List BroadcastMessage) (env : BatchEnv)
  | recordBatch (results : List BulkEmailResult) (now : Instant)
  | finishIfDone (now : Instant)
  | countingOpen (failureReason : Option String) (now : Instant)
  | counting (failureReason : Option String) (now : Instant)
  | finishing (status : BroadcastStatus) (failureReason : Option String) (now : Instant)
  | recoverStaleSends (now : Instant)

/-- The points at which a request or a step of the worker begins. -/
def BroadcastPoint.isEntry : BroadcastPoint → Bool
  | .updateBroadcast .. | .approveBroadcast .. | .dismissBroadcast .. | .cancelBroadcast ..
  | .startDueBroadcast .. | .claimBatch .. | .finishIfDone .. | .recoverStaleSends .. => true
  | .updating .. | .approving .. | .dismissing .. | .returning .. | .sweeping .. | .cancelling ..
  | .claiming .. | .handing .. | .recordBatch .. | .countingOpen .. | .counting ..
  | .finishing .. => false

/-- The points at which a session has a claimed batch in flight. -/
def BroadcastPoint.inFlight : BroadcastPoint → Bool
  | .handing .. | .recordBatch .. => true
  | _ => false

namespace BroadcastDesk

/-! ### Statements -/

/-- A write to the broadcast's own row. -/
def update (d : BroadcastDesk) (f : Broadcast → Broadcast) : BroadcastDesk :=
  { d with broadcast := f d.broadcast }

/-- Whether some session holds the lock of a recipient between two of its statements. -/
def locked (d : BroadcastDesk) : Bool :=
  d.recipients.any (·.lockedBy.isSome)

/-- The write of `approveBroadcast`: the audience is inserted, unless an address is there already,
and the broadcast is approved. -/
def approve (d : BroadcastDesk) (read : Broadcast) (fingerprint : String)
    (sendAt : Patch (Option Instant)) (actor : Actor) (prep : Preparation) (now : Instant) :
    BroadcastDesk :=
  { d with
    broadcast := d.broadcast.approve prep.compiledHtml fingerprint prep.members.length
      (broadcastStart read sendAt now) actor now
    recipients := d.recipients ++ recipientsOf d.nextId prep.members
    nextId := d.nextId + prep.members.length
    approval := some ⟨fingerprint, read.content prep, prep.members⟩ }

/-- Whether inserting the audience violates the unique index on addresses. -/
def clashes (d : BroadcastDesk) (members : List AudienceMember) : Bool :=
  members.any fun m => d.recipients.any fun r => r.address = m.address

/-- The first write of `cancelBroadcast` on a started broadcast: the queued recipients are locked,
to be skipped when the transaction commits. -/
def sweep (d : BroadcastDesk) (t : ℕ) : BroadcastDesk :=
  { d with
    recipients := d.recipients.map fun r =>
      if r.status = .queued then { r with lockedBy := some t } else r }

/-- The end of `cancelBroadcast` on a started broadcast: its locks are given up, and if the
transaction commits the marked recipients are skipped and the broadcast is cancelled. -/
def cancel (d : BroadcastDesk) (t : ℕ) (reason : String) (commits : Bool) (now : Instant) :
    BroadcastDesk :=
  if commits then
    { d with
      broadcast := d.broadcast.cancel reason now
      recipients := d.recipients.map fun r => if r.lockedBy = some t then r.cancel now else r }
  else
    { d with
      recipients := d.recipients.map fun r =>
        if r.lockedBy = some t then { r with lockedBy := none } else r }

/-- The message of a claimed recipient. -/
def message (read : Broadcast) (approval : Option BroadcastApproval) (r : Recipient) :
    BroadcastMessage where
  recipient := r.id
  address := r.address
  subject := read.subject
  preheader := read.preheader
  html := read.approvedHtml.getD ""
  channelId := read.channelId
  approval := approval

/-- The recipients a batch claims, as they were. -/
def batchOf (d : BroadcastDesk) (read : Broadcast) (budget : Nat) (env : BatchEnv) :
    List Recipient :=
  claimed env.facts env.now (claimAllowance read d.recipients env.now budget) d.recipients

/-- The writes of `claimBatch`. -/
def claim (d : BroadcastDesk) (t : ℕ) (read : Broadcast) (budget : Nat) (env : BatchEnv) :
    BroadcastDesk :=
  { d with
    broadcast :=
      if truthy read.failureReason then
        { d.broadcast with failureReason := none, updatedAt := env.now }
      else d.broadcast
    recipients := afterClaim env.facts env.now
      (claimAllowance read d.recipients env.now budget) d.recipients
    ready := d.ready ++ (d.batchOf read budget env).map fun r => (t, r.id) }

/-- Handing a batch to the provider. -/
def hand (d : BroadcastDesk) (t : ℕ) (batch : List BroadcastMessage) : BroadcastDesk :=
  { d with
    messages := d.messages ++ batch
    ready := d.ready.filter (·.1 ≠ t)
    out := d.out ++ batch.map fun m => (t, m.recipient) }

/-- The answers of the provider, one per message. -/
def resultsOf (batch : List BroadcastMessage) (env : BatchEnv) : List BulkEmailResult :=
  batch.map fun m => ⟨m.recipient, env.outcome m.recipient⟩

end BroadcastDesk

open BroadcastDesk

/-- Why a batch is not sent while its channel is not there. -/
def pausedReason (b : Broadcast) : String :=
  "channel " ++ b.channelId ++ " is not an active email channel; sending resumes when it is"

/-- The next statement of session `t` at each point; `none` while it waits for a lock. -/
def BroadcastPoint.exec (sha256Hex : String → String) (t : ℕ) (p : BroadcastPoint)
    (d : BroadcastDesk) : Option (BroadcastDesk × Option BroadcastPoint) :=
  match p with
  | .updateBroadcast patch now => some (d,
    match assertStatus d.broadcast [.pending] "edited", patch.check with
    | .ok _, .ok _ => some (.updating patch now)
    | _, _ => none)
  | .updating patch now => some (d.update (·.edit patch now), none)
  | .approveBroadcast fingerprint sendAt actor prep now => some (d,
    match approveBroadcastCheck sha256Hex d.broadcast actor fingerprint prep with
    | .ok _ => some (.approving d.broadcast fingerprint sendAt actor prep now)
    | .error _ => none)
  | .approving read fingerprint sendAt actor prep now =>
    if d.clashes prep.members then some (d, none)
    else some (d.approve read fingerprint sendAt actor prep now, none)
  | .dismissBroadcast reason actor now => some (d,
    match assertStatus d.broadcast [.pending] "dismissed" with
    | .ok _ => some (.dismissing reason actor now)
    | .error _ => none)
  | .dismissing reason actor now => some (d.update (·.dismiss reason actor now), none)
  | .cancelBroadcast reason commits now => some (d,
    match assertStatus d.broadcast [.approved, .sending] "cancelled",
        requireText reason "reason" with
    | .ok _, .ok reason =>
      if d.broadcast.status = .approved then some (.returning reason commits now)
      else some (.sweeping reason commits now)
    | _, _ => none)
  | .returning reason commits now =>
    if d.broadcast.status ≠ .approved then some (d, some (.sweeping reason commits now))
    else if d.locked then none
    else if commits then
      some ({ d with
        broadcast := d.broadcast.returnToReview reason now
        recipients := []
        approval := none }, none)
    else some (d, none)
  | .sweeping reason commits now =>
    if d.locked then none
    else some (d.sweep t, some (.cancelling reason commits now))
  | .cancelling reason commits now => some (d.cancel t reason commits now, none)
  | .startDueBroadcast now =>
    if d.broadcast.status = .approved then some (d.update (·.start now), none)
    else some (d, none)
  | .claimBatch budget env => some (d,
    if d.broadcast.status ≠ .sending ∨ budget = 0 then none
    else some (.claiming d.broadcast d.approval budget env))
  | .claiming read approval budget env =>
    if env.channelActive then
      some (d.claim t read budget env,
        if (d.batchOf read budget env).isEmpty then none
        else some (.handing ((d.batchOf read budget env).map (message read approval)) env))
    else
      some (d.update fun b =>
        { b with failureReason := some (pausedReason read), updatedAt := env.now }, none)
  | .handing batch env =>
    some (d.hand t batch, some (.recordBatch (resultsOf batch env) env.recordedAt))
  | .recordBatch results now =>
    some ({ d with
      recipients := record now d.recipients results
      out := d.out.filter (·.1 ≠ t) }, none)
  | .finishIfDone now => some (d,
    if d.broadcast.status ≠ .sending then none
    else some (.countingOpen d.broadcast.failureReason now))
  | .countingOpen failureReason now => some (d,
    if d.recipients.any fun r => !r.status.settled then none
    else some (.counting failureReason now))
  | .counting failureReason now =>
    some (d, some (.finishing (finishStatus d.recipients) failureReason now))
  | .finishing status failureReason now =>
    if d.broadcast.status = .sending then some (d.update (·.finish status failureReason now), none)
    else some (d, none)
  | .recoverStaleSends now =>
    some ({ d with recipients := d.recipients.map (·.recover now) }, none)

/-- The sessions on a broadcast. -/
def broadcastSessions (sha256Hex : String → String) : Sessions BroadcastDesk BroadcastPoint where
  entry := BroadcastPoint.isEntry
  exec := BroadcastPoint.exec sha256Hex

/-- A broadcast that was just created: pending, with nobody to send to yet. -/
def BroadcastDesk.created (d : BroadcastDesk) : Prop :=
  ∃ b : Broadcast, b.status = .pending ∧ d = { broadcast := b }

/-! ### A sample -/

/-- A broadcast waiting for its approval. -/
def sampleBroadcast : Broadcast where
  id := "obc_1"
  name := "News"
  segmentId := "cseg_1"
  channelId := "chan_1"
  subject := "News"
  body := "Hi"

/-- Its compiled body and its audience. -/
def samplePreparation : Preparation where
  compiledHtml := "<p>Hi</p>"
  members := [{ contactId := "ccon_1", name := none, address := "ada@example.com" }]

/-- SHA-256, on the one text that the runs below hash. -/
def sampleBroadcastDigest (text : String) : String :=
  if text = "[\"<p>Hi</p>\",\"News\",null,null,\"chan_1\",1]" then
    "9df62f79fbdc4594aef8266010fd664241e38667300a202df201e816bb478162"
  else ""

/-- A signed-in person's approval of the sample. -/
def sampleBroadcastApproval : BroadcastPoint :=
  .approveBroadcast "9df62f79fbdc4594aef8266010fd6642" .keep ⟨.user, "usr_1"⟩ samplePreparation 0

/-- A batch to a contact that may be written to; the provider answers with a message id. -/
def sampleBatch : BroadcastPoint :=
  .claimBatch 10 {
    facts := fun _ => { contact := some { consentLawfulBasis := some "consent" } }
    outcome := fun _ => .ok "<m1@example.com>" }

/-- An approval, a start and a batch. -/
def approvedBroadcastRun : List (Sessions.Move BroadcastPoint) :=
  [.call 1 sampleBroadcastApproval, .exec 1, .exec 1, .call 2 (.startDueBroadcast 0), .exec 2,
    .call 3 sampleBatch, .exec 3, .exec 3, .exec 3]

end Munin
