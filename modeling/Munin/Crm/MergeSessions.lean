import Munin.Crm.Merge
import Munin.Foundations.BulkUpdate
import Munin.Foundations.Sessions

/-!
# Merges as transactions

`proposeMerge`, `applyMergeProposal` and `dismissMergeProposal` run as transactions under read
committed isolation, one statement at a time. None of them locks what it reads: what was read of a
proposal and of its contacts may have changed by the time that is written which rests on it.

* **`MergeDb`** — the tables that they read and write.
* **`MergePoint`, `mergeSessions`** — the statements of the three calls. A call may also fail
  between two statements; then its transaction is rolled back.
* **`Footprint`, `Overlaps`** — the contacts that a call is about, and the calls that may disturb
  each other.
* **`MergesApart`** — such calls do not run at the same time.
-/

namespace Munin

open Foundations

/-- The tables of contacts, of the rows that refer to them, and of the proposals. -/
structure MergeDb where
  contacts : TxTable Contact := []
  rows : TxTable CrmRow := []
  outreach : TxTable OutreachRow := []
  proposals : TxTable MergeProposal := []

namespace MergeDb

variable (db : MergeDb)

def commit (t : ℕ) : MergeDb where
  contacts := db.contacts.commit t
  rows := db.rows.commit t
  outreach := db.outreach.commit t
  proposals := db.proposals.commit t

def abort (t : ℕ) : MergeDb where
  contacts := db.contacts.abort t
  rows := db.rows.abort t
  outreach := db.outreach.abort t
  proposals := db.proposals.abort t

/-- The rows that a statement finds. -/
def found (t : ℕ) : MergeUpdate → List ℕ
  | .contacts p _ => db.contacts.found t p
  | .rows p _ => db.rows.found t p
  | .outreach p _ => db.outreach.found t p
  | .proposals p _ => db.proposals.found t p

/-- A statement at one of its rows. -/
def update (t i : ℕ) : MergeUpdate → Option MergeDb
  | .contacts p f => (db.contacts.updateFound t i p f).map fun T => { db with contacts := T }
  | .rows p f => (db.rows.updateFound t i p f).map fun T => { db with rows := T }
  | .outreach p f => (db.outreach.updateFound t i p f).map fun T => { db with outreach := T }
  | .proposals p f => (db.proposals.updateFound t i p f).map fun T => { db with proposals := T }

/-- The contact with an id, as a transaction reads it. -/
def contact (t : ℕ) (id : String) : Option Contact :=
  (db.contacts.view t).find? (·.id = id)

/-- The merge proposal with an id, as a transaction reads it. -/
def proposal (t : ℕ) (id : String) : Option MergeProposal :=
  (db.proposals.view t).find? (·.id = id)

end MergeDb

/-! ### The calls -/

/-- What `proposeMerge` is given, with the id that an insertion draws. -/
structure ProposeInput where
  contactAId : String
  contactBId : String
  confidence : String
  evidence : Record := []
  recommendedKeeperId : String
  recommendedPatch : Option Record := none
  newId : String

namespace ProposeInput

variable (input : ProposeInput)

def a : String := (canonicalizePair input.contactAId input.contactBId).1
def b : String := (canonicalizePair input.contactAId input.contactBId).2

/-- The row that is inserted. -/
def row : MergeProposal where
  id := input.newId
  contactAId := input.a
  contactBId := input.b
  confidence := input.confidence
  evidence := input.evidence
  recommendedKeeperId := input.recommendedKeeperId
  recommendedPatch := input.recommendedPatch.getD []

/-- The update of a row that is there. -/
def refile (p : MergeProposal) : MergeProposal :=
  { p with
    confidence := input.confidence, evidence := input.evidence
    recommendedKeeperId := input.recommendedKeeperId
    recommendedPatch := input.recommendedPatch.getD [] }

/-- A proposal of the pair. -/
def IsOf (p : MergeProposal) : Prop := p.contactAId = input.a ∧ p.contactBId = input.b

instance (p : MergeProposal) : Decidable (input.IsOf p) := inferInstanceAs (Decidable (_ ∧ _))

end ProposeInput

/-- Where a call stands: at its next statement. An update stands before it (`none`), or at the rows
that are left of those it found. -/
inductive MergePoint where
  | propose (input : ProposeInput) (fails : Bool)
  | proposeApplied (input : ProposeInput) (fails : Bool)
  | proposePending (input : ProposeInput) (fails : Bool)
  | proposeUpdate (input : ProposeInput) (fails : Bool) (id : String) (found : Option (List ℕ))
  | proposeInsert (input : ProposeInput) (fails : Bool)
  | proposeCommit (input : ProposeInput) (fails : Bool)
  | applyRead (id fingerprint : String) (env : MergeEnv) (fails : Option ApplyStmt)
  | applyContacts (proposal : MergeProposal) (env : MergeEnv) (fails : Option ApplyStmt)
  | apply (call : ApplyCall) (fails : Option ApplyStmt) (stmt : ApplyStmt)
    (found : Option (List ℕ))
  | applyCommit (call : ApplyCall)
  | dismiss (id : String) (reason : Option String) (fails : Bool)
  | dismissUpdate (proposal : MergeProposal) (reason : Option String) (fails : Bool)
    (found : Option (List ℕ))
  | dismissCommit (proposal : MergeProposal) (fails : Bool)

namespace MergePoint

/-- A call is opened at its first statement. -/
def entry : MergePoint → Bool
  | .propose .. | .applyRead .. | .dismiss .. => true
  | _ => false

/-- The statement after one of `applyMergeProposal`. -/
def afterStmt (call : ApplyCall) (fails : Option ApplyStmt) (stmt : ApplyStmt) : MergePoint :=
  match stmt.next with
  | some s => .apply call fails s none
  | none => .applyCommit call

/-- An update of merge proposals: it finds its rows, takes one after the other, and goes on. -/
def updateProposals (t : ℕ) (p : MergeProposal → Bool) (f : MergeProposal → MergeProposal)
    (here : Option (List ℕ) → MergePoint) (next : MergePoint) (db : MergeDb) :
    Option (List ℕ) → Option (MergeDb × Option MergePoint)
  | none => some (db, some (here (some (db.found t (.proposals p f)))))
  | some [] => some (db, some next)
  | some (i :: is) =>
    (db.update t i (.proposals p f)).map fun db => (db, some (here (some is)))

/-- One statement of a call; `none` while it waits for a lock. A call that throws is rolled back. -/
def exec (t : ℕ) (point : MergePoint) (db : MergeDb) : Option (MergeDb × Option MergePoint) :=
  match point with
  | .propose input fails =>
    if input.contactAId = input.contactBId then some (db.abort t, none)
    else match db.contact t input.a, db.contact t input.b with
      | some contactA, some contactB =>
        if input.recommendedKeeperId ≠ input.a && input.recommendedKeeperId ≠ input.b then
          some (db.abort t, none)
        else if contactA.mergedInto.isSome || contactB.mergedInto.isSome then some (db.abort t, none)
        else some (db, some (.proposeApplied input fails))
      | _, _ => some (db.abort t, none)
  | .proposeApplied input fails =>
    if (db.proposals.view t).any fun p => input.IsOf p && p.status = .applied then some (db.abort t, none)
    else some (db, some (.proposePending input fails))
  | .proposePending input fails =>
    match (db.proposals.view t).find? fun p => input.IsOf p && p.status = .pending with
    | some p => some (db, some (.proposeUpdate input fails p.id none))
    | none => some (db, some (.proposeInsert input fails))
  | .proposeUpdate input fails id found =>
    updateProposals t (·.id = id) input.refile (.proposeUpdate input fails id)
      (.proposeCommit input fails) db found
  | .proposeInsert input fails =>
    if db.proposals.any fun r => r.values.any (·.id = input.newId) then some (db.abort t, none)
    else (db.proposals.insert MergeProposal.pendingPair t input.row).map fun (proposals, done) =>
      if done then ({ db with proposals }, some (.proposeCommit input fails))
      else (db.abort t, none)
  | .proposeCommit _ fails => some (if fails then db.abort t else db.commit t, none)
  | .applyRead id fingerprint env fails =>
    match db.proposal t id with
    | none => some (db.abort t, none)
    | some p =>
      if p.status ≠ .pending || env.mergeFingerprint p ≠ fingerprint then some (db.abort t, none)
      else some (db, some (.applyContacts p env fails))
  | .applyContacts p env fails =>
    match db.contact t p.recommendedKeeperId, db.contact t p.duplicateId with
    | some keeper, some duplicate =>
      some (db, some (.apply ⟨p, keeper, duplicate, env⟩ fails .keeper none))
    | _, _ => some (db.abort t, none)
  | .apply call fails stmt found =>
    match call.stmt stmt, found with
    | none, _ | some _, some [] => some (db, some (afterStmt call fails stmt))
    | some u, none =>
      if fails = some stmt || stmt = .duplicate && call.dupTags.isNone then some (db.abort t, none)
      else some (db, some (.apply call fails stmt (some (db.found t u))))
    | some u, some (i :: is) =>
      (db.update t i u).map fun db => (db, some (.apply call fails stmt (some is)))
  | .applyCommit _ => some (db.commit t, none)
  | .dismiss id reason fails =>
    match db.proposal t id with
    | none => some (db.abort t, none)
    | some p =>
      if p.status ≠ .pending then some (db.abort t, none)
      else some (db, some (.dismissUpdate p reason fails none))
  | .dismissUpdate p reason fails found =>
    updateProposals t (·.id = p.id)
      (fun p => { p with status := .dismissed, dismissReason := reason })
      (.dismissUpdate p reason fails) (.dismissCommit p fails) db found
  | .dismissCommit p fails =>
    if fails || (db.contact t p.contactAId).isNone || (db.contact t p.contactBId).isNone then
      some (db.abort t, none)
    else some (db.commit t, none)

end MergePoint

/-- The calls, as sessions on the database. -/
def mergeSessions : Sessions MergeDb MergePoint where
  entry := MergePoint.entry
  exec := MergePoint.exec

/-! ### Calls that disturb each other -/

/-- The contacts that a call is about, once it has read. -/
inductive Footprint where
  | merge (keeper duplicate : String)
  | propose (a b : String)

/-- Two calls that may disturb each other: two merges, if one merges away the contact that the other
one keeps; a merge and a proposal, if the proposal is about the contact that is merged away. -/
def Overlaps : Footprint → Footprint → Prop
  | .merge k d, .merge k' d' => d = k' ∨ k = d'
  | .merge _ d, .propose a b | .propose a b, .merge _ d => d = a ∨ d = b
  | .propose .., .propose .. => False

theorem Overlaps.symm {f g : Footprint} (h : Overlaps f g) : Overlaps g f := by
  match f, g, h with
  | .merge _ _, .merge _ _, .inl h => exact .inr h.symm
  | .merge _ _, .merge _ _, .inr h => exact .inl h.symm
  | .merge _ _, .propose _ _, h => exact h
  | .propose _ _, .merge _ _, h => exact h

/-- The footprint of a call that is at work. -/
def MergePoint.footprint : MergePoint → Option Footprint
  | .proposeApplied input _ | .proposePending input _ | .proposeUpdate input ..
  | .proposeInsert input _ | .proposeCommit input _ => some (.propose input.a input.b)
  | .applyContacts p .. => some (.merge p.recommendedKeeperId p.duplicateId)
  | .apply call .. | .applyCommit call => some (.merge call.keeperId call.duplicateId)
  | .propose .. | .applyRead .. | .dismiss .. | .dismissUpdate .. | .dismissCommit .. => none

/-- The footprint that a call has after its next statement. -/
def MergePoint.footprintAfter (t : ℕ) (db : MergeDb) : MergePoint → Option Footprint
  | .propose input _ => some (.propose input.a input.b)
  | .applyRead id .. =>
    (db.proposal t id).map fun p => .merge p.recommendedKeeperId p.duplicateId
  | point => point.footprint

/-- A patch that a call is about to apply names no contact to be merged into. -/
def MergePoint.LinksNothing (t : ℕ) (db : MergeDb) : MergePoint → Prop
  | .applyRead id .. => ∀ p ∈ db.proposal t id, NamesNoLink p.recommendedPatch
  | _ => True

/-- **No overlap**: a call that begins to work on its contacts finds no other call at work that it
may disturb, and a patch that is applied names no contact to be merged into. -/
def MergesApart (w : Sessions.World MergeDb MergePoint) : Sessions.Move MergePoint → Prop
  | .call .. => True
  | .exec t => ∀ point, w.live t = some point → point.LinksNothing t w.store ∧
    ∀ f, point.footprintAfter t w.store = some f →
      ∀ u other g, u ≠ t → w.live u = some other → other.footprint = some g → ¬ Overlaps f g

end Munin
