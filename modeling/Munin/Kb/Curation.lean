import Munin.Kb.Document

/-!
# Decisions on a curation candidate

A candidate is a document that waits for a decision. It is published as a document of its own, or as
a new version of the document that it revises, or it is dismissed, which is what deleting it means,
too. Each of the four reads the candidate, makes what it publishes, deletes the candidate, and
records its decision. A deletion that finds no row is none the less taken for one.

* **`CurationOp.accepts`** — what the four ask of the candidate.
* **`publishedFrom`, `CurationOp.decision`** — what they publish and record.
* **`CurationMove`, `curationMachine`** — the statements of any number of transactions that are
  about one candidate.
* **`FindsCandidate`** — a deletion finds the candidate.
* **`decided_once`** — in runs that meet the condition, there is one decision at most.
* **`decided_twice`** — two reviewers who publish the candidate at once.
-/

namespace Munin

open Foundations VersionLog

/-- The outcome of a decision. -/
inductive CurationOutcome where
  | dismissed
  | published
  deriving DecidableEq

/-- A row of `kb_curation_decisions`. -/
structure KbCurationDecision where
  sourceConversationId : Option String
  sourceMessageId : Option String := none
  candidateDocumentId : String
  title : String
  outcome : CurationOutcome
  reason : Option String
  publishedDocumentId : Option String

/-- What is asked for the candidate. -/
inductive CurationOp where
  | publishCandidate (ifVersion : ℕ) (audiences : Option (List String))
  | publishRevision (ifCandidateVersion ifDocumentVersion : ℕ)
  | dismiss (ifVersion : ℕ) (reason : Option String)
  | delete (ifVersion : ℕ)

/-- By whom the candidate is removed then. -/
def CurationOp.remover : CurationOp → Remover
  | .publishCandidate .. => .publishCurationCandidate
  | .publishRevision .. => .publishCurationRevision
  | .dismiss .. => .dismissCurationCandidate
  | .delete _ => .deleteDocument

/-- The version of the candidate that is named. -/
def CurationOp.ifVersion : CurationOp → ℕ
  | .publishCandidate ifVersion _ | .publishRevision ifVersion _ | .dismiss ifVersion _
  | .delete ifVersion => ifVersion

/-- Whether the candidate is as it is asked for. -/
def CurationOp.accepts (candidate : KbDocument) (op : CurationOp) : Bool :=
  op.remover.admits candidate && candidate.version = op.ifVersion

def stripCandidateTags (tags : List String) : List String :=
  tags.filter fun t => t ≠ "curation" && t ≠ "candidate" && t ≠ "revision" &&
    !jsStartsWith t "source:" && !jsStartsWith t "source-msg:" && !jsStartsWith t "target:" &&
    !jsStartsWith t "revises:"

/-- The document that `publishCurationCandidate` creates. -/
def publishedFrom (candidate : KbDocument) (id : String) (audiences : Option (List String)) :
    KbDocument where
  id := id
  title := candidate.title
  body := candidate.body
  sourceUrl := candidate.sourceUrl
  audiences := audiences.getD ["admin", "self_service"]
  tags := stripCandidateTags candidate.tags

/-- The decision that is recorded. -/
def CurationOp.decision (candidate : KbDocument) (published : Option KbDocument)
    (op : CurationOp) : Option KbCurationDecision :=
  let refs := extractCandidateRefs candidate.tags
  let decision : KbCurationDecision :=
    { sourceConversationId := refs.sourceConversationId
      candidateDocumentId := candidate.id
      title := candidate.title
      outcome := .published
      reason := none
      publishedDocumentId := published.map (·.id) }
  match op with
  | .publishCandidate .. => some decision
  | .publishRevision .. => some { decision with sourceMessageId := refs.sourceMessageId }
  | .dismiss _ reason =>
    if candidate.tags.contains "candidate" then
      some { decision with
        sourceMessageId := refs.sourceMessageId, outcome := .dismissed, reason := reason }
    else none
  | .delete _ =>
    if candidate.tags.contains "candidate" then
      some { decision with sourceMessageId := refs.sourceMessageId, outcome := .dismissed }
    else none

/-! ### Transactions on one candidate -/

/-- How far a transaction has come. -/
inductive CurationPhase where
  | candidateRead
  | revisedChecked (revisedId : String)
  | revisedRead (revisedId : String) (revised : KbDocument)
  | revisedWritten (revisedId : String) (updated : KbDocument)
  | made (published : KbDocument)
  | removed (published : Option KbDocument)
  | decided (published : Option KbDocument) (decision : Option KbCurationDecision)

/-- A transaction, with the candidate as it has read it. -/
structure CurationCall where
  op : CurationOp
  candidate : KbDocument
  phase : CurationPhase

/-- The documents, the transactions that are open, and what was decided on the candidate. -/
structure CurationState where
  documents : String → VersionLog KbDocument KbVersion
  calls : ℕ → Option CurationCall := fun _ => none
  decisions : List KbCurationDecision := []
  published : List KbDocument := []

namespace CurationState

variable (s : CurationState)

/-- A transaction, further on. -/
def goTo (call : ℕ) (op : CurationOp) (candidate : KbDocument) (phase : CurationPhase) :
    CurationState :=
  { s with calls := Function.update s.calls call (some ⟨op, candidate, phase⟩) }

/-- A document, after a statement. -/
def put (id : String) (L : VersionLog KbDocument KbVersion) : CurationState :=
  { s with documents := Function.update s.documents id L }

/-- A transaction is taken back. -/
def rollback (call : ℕ) : CurationState :=
  { s with
    documents := fun id => (s.documents id).abort call
    calls := Function.update s.calls call none }

end CurationState

/-- A statement of a transaction, or its end. -/
inductive CurationMove where
  | load (call : ℕ) (op : CurationOp)
  | checkRevised (call : ℕ)
  | readRevised (call : ℕ)
  | writeRevised (call : ℕ)
  | snapshotRevised (call : ℕ)
  | create (call : ℕ) (id : String)
  | remove (call : ℕ)
  | decide (call : ℕ)
  | commit (call : ℕ)
  | abort (call : ℕ)

/-- The revised document in the version that is named. -/
def readRevised (s : CurationState) (call : ℕ) (id : String) (ifVersion : ℕ) :
    Option KbDocument :=
  ((s.documents id).read call).filter (·.version = ifVersion)

/-- The deletion of the candidate, and then the transaction goes on, whether there was a row or
not. -/
def removeCandidate (candidateId : String) (s : CurationState) (call : ℕ) (op : CurationOp)
    (candidate : KbDocument) (published : Option KbDocument) : Option CurationState :=
  ((s.documents candidateId).delete call).map fun (L, _) =>
    (s.put candidateId L).goTo call op candidate (.removed published)

/-- One statement. A statement that waits for a lock is no step; one that fails takes its
transaction back. -/
def CurationState.step (candidateId : String) (s : CurationState) :
    CurationMove → Option CurationState
  | .load call op =>
    match s.calls call with
    | none =>
      (((s.documents candidateId).read call).filter (op.accepts ·)).map fun candidate =>
        s.goTo call op candidate .candidateRead
    | some _ => none
  | .checkRevised call =>
    match s.calls call with
    | some ⟨.publishRevision v ifVersion, candidate, .candidateRead⟩ =>
      (extractCandidateRefs candidate.tags).revisesDocumentId.bind fun id =>
        (readRevised s call id ifVersion).map fun _ =>
          s.goTo call (.publishRevision v ifVersion) candidate (.revisedChecked id)
    | _ => none
  | .readRevised call =>
    match s.calls call with
    | some ⟨.publishRevision v ifVersion, candidate, .revisedChecked id⟩ =>
      (readRevised s call id ifVersion).map fun revised =>
        s.goTo call (.publishRevision v ifVersion) candidate (.revisedRead id revised)
    | _ => none
  | .writeRevised call =>
    match s.calls call with
    | some ⟨op, candidate, .revisedRead id revised⟩ =>
      let write := KbWrite.update revised.title candidate.body revised.sourceUrl revised.audiences
        revised.tags
      ((s.documents id).update call fun current => write.set revised current).map fun
        | (L, some updated) =>
          (s.put id L).goTo call op candidate (.revisedWritten id updated)
        | (_, none) => s.rollback call
    | _ => none
  | .snapshotRevised call =>
    match s.calls call with
    | some ⟨op, candidate, .revisedWritten id updated⟩ =>
      ((s.documents id).record call KbVersion.version updated.snapshot).map fun
        | (L, true) => (s.put id L).goTo call op candidate (.made updated)
        | (_, false) => s.rollback call
    | _ => none
  | .create call id =>
    match s.calls call with
    | some ⟨.publishCandidate v audiences, candidate, .candidateRead⟩ =>
      let published := publishedFrom candidate id audiences
      if id ≠ candidateId ∧ (s.documents id).row = none ∧ (s.documents id).lock = none then
        some ((s.put id { s.documents id with
          lock := some ⟨call, some published, some published.snapshot⟩ }).goTo call
            (.publishCandidate v audiences) candidate (.made published))
      else none
    | _ => none
  | .remove call =>
    match s.calls call with
    | some ⟨op, candidate, .made published⟩ =>
      removeCandidate candidateId s call op candidate (some published)
    | some ⟨.dismiss v reason, candidate, .candidateRead⟩ =>
      removeCandidate candidateId s call (.dismiss v reason) candidate none
    | some ⟨.delete v, candidate, .candidateRead⟩ =>
      removeCandidate candidateId s call (.delete v) candidate none
    | _ => none
  | .decide call =>
    match s.calls call with
    | some ⟨op, candidate, .removed published⟩ =>
      some (s.goTo call op candidate
        (.decided published (op.decision candidate published)))
    | _ => none
  | .commit call =>
    match s.calls call with
    | some ⟨_, _, .decided published decision⟩ =>
      some { documents := fun id => (s.documents id).commit call
             calls := Function.update s.calls call none
             decisions := s.decisions ++ decision.toList
             published := s.published ++ published.toList }
    | _ => none
  | .abort call =>
    match s.calls call with
    | some _ => some (s.rollback call)
    | none => none

/-- The transactions that are about one candidate. -/
def curationMachine (candidateId : String) : Machine CurationState CurationMove :=
  ⟨CurationState.step candidateId⟩

/-- The documents are there, and nothing is decided yet. -/
def CurationState.Undecided (s : CurationState) : Prop :=
  (∀ id, (s.documents id).lock = none) ∧ s.calls = (fun _ => none) ∧ s.decisions = [] ∧
    s.published = []

/-- A deletion finds the candidate. -/
def FindsCandidate (candidateId : String) (s : CurationState) : CurationMove → Prop
  | .remove _ => (s.documents candidateId).row.isSome = true
  | _ => True

instance (candidateId : String) (s : CurationState) :
    ∀ a, Decidable (FindsCandidate candidateId s a)
  | .remove _ => inferInstanceAs (Decidable ((s.documents candidateId).row.isSome = true))
  | .load .. | .checkRevised _ | .readRevised _ | .writeRevised _ | .snapshotRevised _
  | .create .. | .decide _ | .commit _ | .abort _ => inferInstanceAs (Decidable True)

/-! ### What the statements keep -/

/-- Whether a transaction has come to the deletion of the candidate. -/
def CurationCall.removes (c : CurationCall) : Bool :=
  match c.phase with
  | .removed _ | .decided .. => true
  | _ => false

/-- The invariant: nothing is decided while the candidate is there, and who has deleted it has it
locked. -/
structure CurationOk (candidateId : String) (s : CurationState) : Prop where
  locked : ∀ l ∈ (s.documents candidateId).lock, (s.documents candidateId).row.isSome = true
  undecided : (s.documents candidateId).row.isSome = true → s.decisions = [] ∧ s.published = []
  once : s.decisions.length ≤ 1 ∧ s.published.length ≤ 1
  removed : ∀ t c, s.calls t = some c → c.removes = true →
    ∃ e, (s.documents candidateId).lock = some ⟨t, none, e⟩

section Keeps

variable {candidateId : String} {s s' : CurationState} {call t : ℕ}

variable {c : Option CurationCall} {id : String} {op : CurationOp} {candidate : KbDocument}

/-- A transaction moves on, and what is committed stays. -/
theorem CurationOk.move (hs : CurationOk candidateId s)
    (hcalls : s'.calls = Function.update s.calls call c) (hdecisions : s'.decisions = s.decisions)
    (hpublished : s'.published = s.published)
    (hrow : (s'.documents candidateId).row = (s.documents candidateId).row)
    (hlocked : ∀ l ∈ (s'.documents candidateId).lock, (s.documents candidateId).row.isSome = true)
    (hothers : ∀ l, l.holder ≠ call → (s.documents candidateId).lock = some l →
      (s'.documents candidateId).lock = some l)
    (hself : ∀ d ∈ c, d.removes = true →
      ∃ e, (s'.documents candidateId).lock = some ⟨call, none, e⟩) : CurationOk candidateId s' where
  locked l hl := by
    rw [hrow]
    exact hlocked l hl
  undecided h := by
    rw [hdecisions, hpublished]
    exact hs.undecided (hrow ▸ h)
  once := by
    rw [hdecisions, hpublished]
    exact hs.once
  removed t d hd hremoves := by
    rw [hcalls] at hd
    by_cases ht : t = call
    · subst ht
      rw [Function.update_self] at hd
      exact hself d hd hremoves
    · rw [Function.update_of_ne ht] at hd
      obtain ⟨e, he⟩ := hs.removed t d hd hremoves
      exact ⟨e, hothers _ ht he⟩

/-- A transaction goes on, and the candidate's row is not touched. -/
theorem CurationOk.stay (hs : CurationOk candidateId s)
    (hcalls : s'.calls = Function.update s.calls call c) (hdecisions : s'.decisions = s.decisions)
    (hpublished : s'.published = s.published)
    (hsame : s'.documents candidateId = s.documents candidateId)
    (hself : ∀ d ∈ c, d.removes = true →
      ∃ e, (s.documents candidateId).lock = some ⟨call, none, e⟩) : CurationOk candidateId s' :=
  hs.move hcalls hdecisions hpublished (by rw [hsame]) (by rw [hsame]; exact hs.locked)
    (fun l _ hl => by rw [hsame, hl]) (by rwa [hsame])

theorem put_of_ne (L : VersionLog KbDocument KbVersion) (h : id ≠ candidateId) :
    (s.put id L).documents candidateId = s.documents candidateId :=
  Function.update_of_ne h.symm _ _

theorem put_self (L : VersionLog KbDocument KbVersion) :
    (s.put candidateId L).documents candidateId = L :=
  Function.update_self _ _ _

variable (hs : CurationOk candidateId s)

include hs

/-- A statement on a document that keeps what is committed, and the locks of others. -/
theorem CurationOk.put {L : VersionLog KbDocument KbVersion}
    {phase : CurationPhase} (hrow : L.row = (s.documents id).row)
    (hlocked : (∀ l ∈ (s.documents id).lock, (s.documents id).row.isSome = true) →
      ∀ l ∈ L.lock, (s.documents id).row.isSome = true)
    (hothers : ∀ l, l.holder ≠ call → (s.documents id).lock = some l → L.lock = some l)
    (hself : (⟨op, candidate, phase⟩ : CurationCall).removes = false) :
    CurationOk candidateId ((s.put id L).goTo call op candidate phase) := by
  have hnot : ∀ d ∈ (some ⟨op, candidate, phase⟩ : Option CurationCall), ¬ d.removes = true := by
    rintro d ⟨⟩
    rw [hself]
    exact Bool.false_ne_true
  by_cases hid : id = candidateId
  · subst hid
    have hput : ((s.put id L).goTo call op candidate phase).documents id = L := put_self L
    refine hs.move rfl rfl rfl ?_ ?_ ?_ fun d hd h => absurd h (hnot d hd)
    · rw [hput, hrow]
    · rw [hput]
      exact hlocked hs.locked
    · rw [hput]
      exact hothers
  · exact hs.stay rfl rfl rfl (put_of_ne L hid) fun d hd h => absurd h (hnot d hd)

/-- A transaction goes on that has not deleted the candidate yet. -/
theorem CurationOk.goTo {phase : CurationPhase}
    (hself : (⟨op, candidate, phase⟩ : CurationCall).removes = false) :
    CurationOk candidateId (s.goTo call op candidate phase) := by
  refine hs.stay rfl rfl rfl rfl fun d hd hremoves => ?_
  obtain rfl := Option.some.inj hd
  rw [hself] at hremoves
  cases hremoves

theorem CurationOk.rollback (call : ℕ) :
    CurationOk candidateId (s.rollback call) := by
  refine hs.move rfl rfl rfl (abort_row _ _) (fun l hl => ?_) (fun l hne hl => ?_) ?_
  · exact hs.locked l (mem_lock_abort.1 hl).1
  · exact mem_lock_abort.2 ⟨hl, hne⟩
  · rintro d ⟨⟩

theorem CurationOk.load (h : s.step candidateId (.load call op) = some s') :
    CurationOk candidateId s' := by
  rw [CurationState.step] at h
  split at h
  · obtain ⟨candidate, -, rfl⟩ := Option.map_eq_some_iff.1 h
    exact hs.goTo rfl
  · cases h

theorem CurationOk.checkRevised (h : s.step candidateId (.checkRevised call) = some s') :
    CurationOk candidateId s' := by
  rw [CurationState.step] at h
  split at h
  · obtain ⟨id, -, hid⟩ := Option.bind_eq_some_iff.1 h
    obtain ⟨revised, -, rfl⟩ := Option.map_eq_some_iff.1 hid
    exact hs.goTo rfl
  · cases h

theorem CurationOk.readRevised (h : s.step candidateId (.readRevised call) = some s') :
    CurationOk candidateId s' := by
  rw [CurationState.step] at h
  split at h
  · obtain ⟨revised, -, rfl⟩ := Option.map_eq_some_iff.1 h
    exact hs.goTo rfl
  · cases h

theorem CurationOk.writeRevised (h : s.step candidateId (.writeRevised call) = some s') :
    CurationOk candidateId s' := by
  rw [CurationState.step] at h
  split at h
  · obtain ⟨⟨L, written⟩, hupdate, h⟩ := Option.map_eq_some_iff.1 h
    obtain ⟨hrow, hlocked, hothers⟩ := update_keeps hupdate
    cases written with
    | none =>
      obtain rfl := h
      exact hs.rollback call
    | some updated =>
      obtain rfl := h
      exact hs.put hrow hlocked hothers rfl
  · cases h

theorem CurationOk.snapshotRevised (h : s.step candidateId (.snapshotRevised call) = some s') :
    CurationOk candidateId s' := by
  rw [CurationState.step] at h
  split at h
  · obtain ⟨⟨L, done⟩, hrecord, h⟩ := Option.map_eq_some_iff.1 h
    obtain ⟨hrow, hlocked, hothers⟩ := record_keeps hrecord
    cases done with
    | false =>
      obtain rfl := h
      exact hs.rollback call
    | true =>
      obtain rfl := h
      exact hs.put hrow hlocked hothers rfl
  · cases h

theorem CurationOk.create (h : s.step candidateId (.create call id) = some s') :
    CurationOk candidateId s' := by
  rw [CurationState.step] at h
  split at h
  · dsimp only at h
    split at h
    · rename_i hnew
      obtain rfl := Option.some.inj h
      refine hs.stay rfl rfl rfl (put_of_ne _ hnew.1) fun d hd hremoves => ?_
      obtain rfl := Option.some.inj hd
      cases hremoves
    · cases h
  · cases h

/-- A deletion that finds the candidate has it locked from then on. -/
theorem CurationOk.removeCandidate {published : Option KbDocument}
    (hfinds : (s.documents candidateId).row.isSome = true)
    (h : removeCandidate candidateId s call op candidate published = some s') :
    CurationOk candidateId s' := by
  obtain ⟨⟨L, done⟩, hdelete, rfl⟩ := Option.map_eq_some_iff.1 h
  obtain ⟨hrow, hself, hothers⟩ := delete_keeps hdelete hfinds
  have hput : ((s.put candidateId L).goTo call op candidate (.removed published)).documents
      candidateId = L := put_self L
  refine hs.move rfl rfl rfl ?_ ?_ ?_ fun _ _ _ => ?_
  · rw [hput, hrow]
  · exact fun _ _ => hfinds
  · rw [hput]
    exact hothers
  · rw [hput]
    exact hself

theorem CurationOk.remove (hfinds : FindsCandidate candidateId s (.remove call))
    (h : s.step candidateId (.remove call) = some s') : CurationOk candidateId s' := by
  rw [CurationState.step] at h
  split at h
  · exact hs.removeCandidate hfinds h
  · exact hs.removeCandidate hfinds h
  · exact hs.removeCandidate hfinds h
  · cases h

theorem CurationOk.decide (h : s.step candidateId (.decide call) = some s') :
    CurationOk candidateId s' := by
  rw [CurationState.step] at h
  split at h
  · rename_i hcall
    obtain rfl := Option.some.inj h
    exact hs.stay rfl rfl rfl rfl fun _ _ _ => hs.removed call _ hcall rfl
  · cases h

/-- With the commit, the candidate is gone, and no other transaction had deleted it. -/
theorem CurationOk.commit (h : s.step candidateId (.commit call) = some s') :
    CurationOk candidateId s' := by
  rw [CurationState.step] at h
  split at h
  · rename_i hcall
    obtain rfl := Option.some.inj h
    obtain ⟨e, hlock⟩ := hs.removed call _ hcall rfl
    obtain ⟨hdecisions, hpublished⟩ := hs.undecided (hs.locked _ hlock)
    have hgone : ((s.documents candidateId).commit call).row = none := by
      rw [commit_of_lock hlock]
    have hfree : ((s.documents candidateId).commit call).lock = none := by
      rw [commit_of_lock hlock]
    refine ⟨fun l hl => ?_, fun hrow => ?_, ?_, fun t c hc hremoves => ?_⟩
    · exact absurd (hfree.symm.trans hl) nofun
    · rw [hgone] at hrow
      cases hrow
    · rw [hdecisions, hpublished]
      exact ⟨Option.length_toList_le, Option.length_toList_le⟩
    · have hopen : Function.update s.calls call none t = some c := hc
      by_cases ht : t = call
      · subst ht
        rw [Function.update_self] at hopen
        cases hopen
      · rw [Function.update_of_ne ht] at hopen
        obtain ⟨e', hlock'⟩ := hs.removed t c hopen hremoves
        have hsame := Option.some.inj (hlock.symm.trans hlock')
        exact absurd (congrArg RowLock.holder hsame).symm ht
  · cases h

theorem CurationOk.step {a : CurationMove}
    (hfinds : FindsCandidate candidateId s a) (h : s.step candidateId a = some s') :
    CurationOk candidateId s' := by
  cases a with
  | load call op => exact hs.load h
  | checkRevised call => exact hs.checkRevised h
  | readRevised call => exact hs.readRevised h
  | writeRevised call => exact hs.writeRevised h
  | snapshotRevised call => exact hs.snapshotRevised h
  | create call id => exact hs.create h
  | remove call => exact hs.remove hfinds h
  | decide call => exact hs.decide h
  | commit call => exact hs.commit h
  | abort call =>
    rw [CurationState.step] at h
    split at h
    · obtain rfl := Option.some.inj h
      exact hs.rollback call
    · cases h

end Keeps

/-- **A candidate is decided once**, and published once, in a run in which each deletion finds
it. -/
theorem decided_once {candidateId : String} {s : CurationState}
    (h : (curationMachine candidateId).Reaches CurationState.Undecided
      (FindsCandidate candidateId) s) : s.decisions.length ≤ 1 ∧ s.published.length ≤ 1 := by
  suffices hs : CurationOk candidateId s from hs.once
  refine h.invariant ?_ fun u v a _ hu hok hstep => hu.step hok hstep
  rintro u ⟨hlocks, hcalls, hdecisions, hpublished⟩
  refine ⟨fun l hl => ?_, fun _ => ⟨hdecisions, hpublished⟩, ?_, fun t c hc => ?_⟩
  · exact absurd ((hlocks candidateId).symm.trans hl) nofun
  · rw [hdecisions, hpublished]
    exact ⟨Nat.zero_le 1, Nat.zero_le 1⟩
  · rw [hcalls] at hc
    cases hc

/-! ### Two reviewers -/

/-- A candidate with its first version, and no other document. -/
def proposedCandidate : CurationState where
  documents id :=
    if id = "c" then
      { row := some { id := "c", title := "a", body := "b",
                      tags := ["curation", "candidate", "source:1"] }
        log := [⟨1, "a", "b", ["admin"], ["curation", "candidate", "source:1"]⟩] }
    else { row := none, log := [] }

theorem undecided_proposedCandidate : proposedCandidate.Undecided := by
  refine ⟨fun id => ?_, rfl, rfl, rfl⟩
  dsimp only [proposedCandidate]
  split
  · rfl
  · rfl

/-- Both reviewers publish the candidate, and have read it before either has deleted it. -/
def publishedTwice : List CurationMove :=
  [.load 0 (.publishCandidate 1 none), .load 1 (.publishCandidate 1 none), .create 0 "p", .remove 0,
    .decide 0, .commit 0, .create 1 "q", .remove 1, .decide 1, .commit 1]

/-- **A candidate can be decided twice**, and two documents come of it. -/
theorem decided_twice : ∃ s, (curationMachine "c").Reachable CurationState.Undecided s ∧
    s.decisions.map (·.candidateDocumentId) = ["c", "c"] ∧
      s.published.map (·.id) = ["p", "q"] := by
  have hview : ((curationMachine "c").run proposedCandidate publishedTwice).map (fun s =>
      (s.decisions.map (·.candidateDocumentId), s.published.map (·.id))) =
        some (["c", "c"], ["p", "q"]) := by decide +kernel
  obtain ⟨s, hs, hboth⟩ := Option.map_eq_some_iff.1 hview
  obtain ⟨hdecisions, hpublished⟩ := Prod.mk.inj hboth
  exact ⟨s, Machine.reachable_of_run undecided_proposedCandidate hs, hdecisions, hpublished⟩

/-- Both have read the candidate. One publishes it; the transaction of the other one is taken back
before it comes to its deletion. -/
def publishedInTurn : List CurationMove :=
  [.load 0 (.publishCandidate 1 none), .load 1 (.publishCandidate 1 none), .create 0 "p",
    .create 1 "q", .remove 0, .abort 1, .decide 0, .commit 0]

/-- There is one decision then. -/
theorem decided_once_sample : ∃ s,
    (curationMachine "c").Reaches CurationState.Undecided (FindsCandidate "c") s ∧
      s.published.map (·.id) = ["p"] ∧ s.decisions.length ≤ 1 ∧ s.published.length ≤ 1 := by
  have hview : ((curationMachine "c").runUnder (FindsCandidate "c") proposedCandidate
      publishedInTurn).map (fun s => s.published.map (·.id)) = some ["p"] := by decide +kernel
  obtain ⟨s, hs, hpublished⟩ :=
    Machine.exists_reaches_of_runUnder undecided_proposedCandidate hview
  exact ⟨s, hs, hpublished, decided_once hs⟩

end Munin
