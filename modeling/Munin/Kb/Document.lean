import Munin.Foundations.JsString
import Munin.Foundations.Machine
import Munin.Foundations.VersionStages

/-!
# Documents of the knowledge base

A document has a version, and each write of it has a snapshot under the next number, which a unique
index keeps from having the number of another one. Requests name the version that they are about.
They read the document without a lock, and check its version; then they update it by its id and
insert the snapshot, or delete it by its id.

* **`KbDocument`, `KbVersion`** — the document and its snapshots.
* **`KbRequest.load`** — what a request makes of the document that it reads.
* **`KbWrite.set`** — what `updateDocument` and `restoreVersion` write then.
* **`KbMove`, `kbMachine`** — the statements of any number of transactions on one document.

Texts are given as they are after normalisation; replacements in the body are a parameter.
-/

namespace Munin

open Foundations VersionLog

/-- A row of `kb_document_versions`. -/
structure KbVersion where
  version : ℕ
  title : String
  body : String
  audiences : List String
  tags : List String

/-- A row of `kb_documents`. -/
structure KbDocument where
  id : String
  title : String
  body : String
  sourceUrl : Option String := none
  audiences : List String := ["admin"]
  version : ℕ := 1
  tags : List String := []
  isSystem : Bool := false
  deriving DecidableEq

/-- What `snapshotVersion` inserts. -/
def KbDocument.snapshot (doc : KbDocument) : KbVersion :=
  ⟨doc.version, doc.title, doc.body, doc.audiences, doc.tags⟩

/-! ### Curation candidates -/

/-- What the tags of a candidate say. -/
structure CandidateRefs where
  proposedTargetSpaceSlug : Option String := none
  sourceConversationId : Option String := none
  sourceMessageId : Option String := none
  revisesDocumentId : Option String := none
  deriving DecidableEq

/-- `tag.slice(prefix.length)`. -/
def afterPrefix (start tag : String) : String :=
  .ofList (tag.toList.drop start.toList.length)

/-- The tag, if it starts so and nothing that is not empty was found before. -/
def takesTag (start : String) (found : Option String) (tag : String) : Bool :=
  jsStartsWith tag start && !truthy found

/-- One turn of the loop of `extractCandidateRefs`. -/
def CandidateRefs.read (refs : CandidateRefs) (tag : String) : CandidateRefs :=
  if takesTag "target:" refs.proposedTargetSpaceSlug tag then
    { refs with proposedTargetSpaceSlug := some (afterPrefix "target:" tag) }
  else if takesTag "source-msg:" refs.sourceMessageId tag then
    { refs with sourceMessageId := some (afterPrefix "source-msg:" tag) }
  else if takesTag "source:" refs.sourceConversationId tag then
    { refs with sourceConversationId := some (afterPrefix "source:" tag) }
  else if takesTag "revises:" refs.revisesDocumentId tag then
    { refs with revisesDocumentId := some (afterPrefix "revises:" tag) }
  else refs

def extractCandidateRefs (tags : List String) : CandidateRefs :=
  tags.foldl CandidateRefs.read {}

example : extractCandidateRefs ["curation", "candidate", "source:c1", "source-msg:m1"] =
    { sourceConversationId := some "c1", sourceMessageId := some "m1" } := by decide +kernel

/-- Who removes a document. -/
inductive Remover where
  | deleteDocument
  | dismissCurationCandidate
  | publishCurationCandidate
  | publishCurationRevision

/-- What a remover asks of the document, but for its version. -/
def Remover.admits (doc : KbDocument) : Remover → Bool
  | .deleteDocument => !doc.isSystem
  | .dismissCurationCandidate => doc.tags.contains "candidate"
  | .publishCurationCandidate => doc.tags.contains "candidate" && !doc.tags.contains "revision"
  | .publishCurationRevision =>
    doc.tags.contains "candidate" && truthy (extractCandidateRefs doc.tags).revisesDocumentId

/-! ### Writes -/

/-- What is going to be written of a document that was read. -/
inductive KbWrite where
  | update (title body : String) (sourceUrl : Option String) (audiences tags : List String)
  | restore (snap : KbVersion)

/-- The update of the row `current`, for a document that was read as `existing`. -/
def KbWrite.set (existing current : KbDocument) : KbWrite → KbDocument
  | .update title body sourceUrl audiences tags =>
    { current with
      title := title
      body := body
      sourceUrl := sourceUrl
      audiences := audiences
      tags := tags
      version := existing.version + 1 }
  | .restore snap =>
    { current with
      title := snap.title
      body := snap.body
      audiences := snap.audiences
      tags := snap.tags
      version := existing.version + 1 }

/-- A request that is about a version of the document. -/
inductive KbRequest where
  | update (ifVersion : ℕ) (title : Option String) (replaceBodyText : String → Option String)
    (sourceUrl : Option (Option String)) (audiences tags : Option (List String))
  | restore (ifVersion version : ℕ)
  | revise (ifVersion : ℕ) (body : String)
  | remove (by' : Remover) (ifVersion : ℕ)

/-- The version that a request names. -/
def KbRequest.ifVersion : KbRequest → ℕ
  | .update ifVersion .. | .restore ifVersion _ | .revise ifVersion _ | .remove _ ifVersion =>
    ifVersion

/-- How far a transaction has come. -/
inductive KbPhase where
  | restoring (existing : KbDocument) (version : ℕ)
  | revising (body : String)
  | loaded (write : KbWrite) (existing : KbDocument)
  | written (write : KbWrite) (existing updated : KbDocument)
  | snapshotted (write : KbWrite) (existing updated : KbDocument)
  | removing (existing : KbDocument)
  | removed (existing : KbDocument) (done : Bool)

/-- A transaction, with the version that its request names. -/
structure KbCall where
  ifVersion : ℕ
  phase : KbPhase

/-- What a request makes of a document in the version that it names. -/
def KbRequest.begins (existing : KbDocument) : KbRequest → Option KbPhase
  | .update _ title replaceBodyText sourceUrl audiences tags =>
    (replaceBodyText existing.body).map fun body =>
      .loaded (.update (title.getD existing.title) body (sourceUrl.getD existing.sourceUrl)
        (audiences.getD existing.audiences) (tags.getD existing.tags)) existing
  | .restore _ version => some (.restoring existing version)
  | .revise _ body => some (.revising body)
  | .remove by' _ => if by'.admits existing then some (.removing existing) else none

/-- What a request does with the document that it reads; `none` if it is refused. -/
def KbRequest.load (existing : KbDocument) (request : KbRequest) : Option KbCall :=
  if existing.version = request.ifVersion then
    (request.begins existing).map (⟨request.ifVersion, ·⟩)
  else none

/-! ### Transactions on one document -/

/-- The document with its versions, and the transactions that are open. -/
structure KbState where
  store : VersionLog KbDocument KbVersion
  calls : ℕ → Option KbCall := fun _ => none

namespace KbState

variable (s : KbState)

/-- A transaction, further on. -/
def goTo (call : ℕ) (c : Option KbCall) : ℕ → Option KbCall :=
  Function.update s.calls call c

/-- A transaction is taken back. -/
def rollback (call : ℕ) : KbState :=
  { store := s.store.abort call, calls := s.goTo call none }

end KbState

/-- A statement of a transaction, or its end. -/
inductive KbMove where
  | load (call : ℕ) (request : KbRequest)
  | readTarget (call : ℕ)
  | reload (call : ℕ)
  | write (call : ℕ)
  | snapshot (call : ℕ)
  | delete (call : ℕ)
  | commit (call : ℕ)
  | abort (call : ℕ)

/-- One statement. A statement that waits for the lock of the row is no step; one that fails takes
its transaction back. -/
def KbState.step (s : KbState) : KbMove → Option KbState
  | .load call request =>
    match s.calls call with
    | none =>
      ((s.store.read call).bind (request.load ·)).map fun c =>
        { s with calls := s.goTo call (some c) }
    | some _ => none
  | .readTarget call =>
    match s.calls call with
    | some ⟨ifVersion, .restoring existing version⟩ =>
      ((s.store.readLog call).find? (·.version = version)).map fun snap =>
        { s with calls := s.goTo call (some ⟨ifVersion, .loaded (.restore snap) existing⟩) }
    | _ => none
  | .reload call =>
    -- `publishCurationRevision` goes on as an update with the body of the candidate
    match s.calls call with
    | some ⟨ifVersion, .revising body⟩ =>
      ((s.store.read call).bind
        ((KbRequest.update ifVersion none (fun _ => some body) none none none).load ·)).map fun c =>
          { s with calls := s.goTo call (some c) }
    | _ => none
  | .write call =>
    match s.calls call with
    | some ⟨ifVersion, .loaded w existing⟩ =>
      (s.store.update call fun current => w.set existing current).map fun
        | (store, some updated) =>
          { store := store, calls := s.goTo call (some ⟨ifVersion, .written w existing updated⟩) }
        | (_, none) => s.rollback call
    | _ => none
  | .snapshot call =>
    match s.calls call with
    | some ⟨ifVersion, .written w existing updated⟩ =>
      (s.store.record call KbVersion.version updated.snapshot).map fun
        | (store, true) =>
          { store := store
            calls := s.goTo call (some ⟨ifVersion, .snapshotted w existing updated⟩) }
        | (_, false) => s.rollback call
    | _ => none
  | .delete call =>
    match s.calls call with
    | some ⟨ifVersion, .removing existing⟩ =>
      (s.store.delete call).map fun (store, done) =>
        { store := store, calls := s.goTo call (some ⟨ifVersion, .removed existing done⟩) }
    | _ => none
  | .commit call =>
    match s.calls call with
    | some ⟨_, .snapshotted ..⟩ | some ⟨_, .removed ..⟩ =>
      some { store := s.store.commit call, calls := s.goTo call none }
    | _ => none
  | .abort call =>
    match s.calls call with
    | some _ => some (s.rollback call)
    | none => none

/-- The transactions on one document. -/
def kbMachine : Machine KbState KbMove := ⟨KbState.step⟩

/-- `createDocument` has committed the document with its first version. -/
def KbState.Created (s : KbState) : Prop :=
  ∃ doc : KbDocument, doc.version = 1 ∧ s = { store := { row := some doc, log := [doc.snapshot] } }

end Munin
