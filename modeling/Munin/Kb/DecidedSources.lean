import Munin.Kb.Curation

/-!
# Sources that are decided

A proposal names the conversation that it is drawn from, and it may name a message of it. The tags
of the candidate keep the two, and the decision on it records them. A proposal from a conversation
is refused if there is a decision that it could be about.

* **`assertSourceNotDecided`** — the guard.
* **`CurationProposal.propose`** — the two proposals.
* **`CurationOp.run`** — what a decision makes of the documents.
* **`SourceMove`, `sourceMachine`** — any history of proposals and decisions.
* **`CandidateSource.Overlaps`** — what could be about one message: a source that names none is
  about each message of its conversation.
* **`decided_sources_refused`** — after any history, a proposal is refused just if an earlier
  candidate of an overlapping source was decided, unless `publishCurationCandidate`, which does not
  record the message, has published one from another message.
* **`refused_without_same_source`** — two histories that refuse a source from which nothing was
  decided.
-/

namespace Munin

open Foundations

/-- The errors of the service, each with what it names. -/
inductive KbError where
  | notFound (id : String)
  | invalid (message : String)
  | decided (sourceConversationId : String) (outcome : CurationOutcome)
    (sourceMessageId : Option String)
  deriving DecidableEq

/-- Whether a decision is about a message of a conversation, or about the conversation, if no
message is given. -/
def KbCurationDecision.isAbout (sourceConversationId : String) (sourceMessageId : Option String)
    (d : KbCurationDecision) : Bool :=
  d.sourceConversationId = some sourceConversationId &&
    (!truthy sourceMessageId || d.sourceMessageId = none || d.sourceMessageId = sourceMessageId)

/-- The guard of proposals. The decisions are in the order in which they were made. -/
def assertSourceNotDecided (decisions : List KbCurationDecision) (sourceConversationId : String)
    (sourceMessageId : Option String) : Except KbError Unit :=
  match (decisions.filter (·.isAbout sourceConversationId sourceMessageId)).getLast? with
  | none => .ok ()
  | some decided =>
    .error (.decided sourceConversationId decided.outcome decided.sourceMessageId)

/-! ### Proposals -/

/-- The input of a proposal. -/
inductive CurationProposal where
  | candidate (subject draftBody : String) (sourceConversationId : Option String)
    (sourceMessageIds : Option (List String)) (proposedTargetSpaceSlug : Option String)
  | revision (revisesDocumentId draftBody : String) (subject : Option String)
    (sourceConversationId sourceMessageId : Option String)

/-- A tag for what is given, and none if it is empty. -/
def tagOf (start : String) (value : Option String) : List String :=
  ((value.filter (· ≠ "")).map (start ++ ·)).toList

def dedupeTags (tags : List String) : List String :=
  tags.eraseDups

/-- What a proposal is drawn from. -/
structure CandidateSource where
  conversation : Option String
  message : Option String
  deriving DecidableEq

namespace CurationProposal

def sourceConversationId : CurationProposal → Option String
  | candidate _ _ sourceConversationId _ _ | revision _ _ _ sourceConversationId _ =>
    sourceConversationId

def sourceMessageId : CurationProposal → Option String
  | candidate _ _ _ sourceMessageIds _ => sourceMessageIds.bind (·.head?)
  | revision _ _ _ _ sourceMessageId => sourceMessageId

/-- The tags of the candidate. -/
def tags : CurationProposal → List String
  | candidate _ _ sourceConversationId sourceMessageIds proposedTargetSpaceSlug =>
    dedupeTags (["curation", "candidate"] ++ tagOf "source:" sourceConversationId ++
      tagOf "source-msg:" (sourceMessageIds.bind (·.head?)) ++
      tagOf "target:" proposedTargetSpaceSlug)
  | revision revisesDocumentId _ _ sourceConversationId sourceMessageId =>
    dedupeTags (["curation", "candidate", "revision", "revises:" ++ revisesDocumentId] ++
      tagOf "source:" sourceConversationId ++ tagOf "source-msg:" sourceMessageId)

/-- The candidate. -/
def document (p : CurationProposal) (id title : String) : KbDocument where
  id := id
  title := title
  body := match p with
    | candidate _ draftBody _ _ _ | revision _ draftBody _ _ _ => draftBody
  tags := p.tags

/-- The title of the candidate, if what a revision is of can be revised. -/
def titleIn (documents : String → Option KbDocument) : CurationProposal → Except KbError String
  | candidate subject .. => .ok subject
  | revision revisesDocumentId _ subject _ _ =>
    match documents revisesDocumentId with
    | none => .error (.notFound revisesDocumentId)
    | some revised =>
      if revised.tags.contains "candidate" then
        .error (.invalid ("document " ++ revisesDocumentId ++
          " is itself a curation candidate — revise the published document instead"))
      else if revised.isSystem then
        .error (.invalid ("document " ++ revisesDocumentId ++ " is agent-runtime configuration, " ++
          "not reference material — edit it directly with kb_update_document"))
      else .ok (subject.getD revised.title)

/-- `proposeCurationCandidate` and `proposeCurationRevision`. -/
def propose (p : CurationProposal) (documents : String → Option KbDocument)
    (decisions : List KbCurationDecision) (id : String) : Except KbError KbDocument := do
  let title ← p.titleIn documents
  if let some sourceConversationId := p.sourceConversationId.filter (· ≠ "") then
    assertSourceNotDecided decisions sourceConversationId p.sourceMessageId
  return p.document id title

/-- The source of a proposal. -/
def source (p : CurationProposal) : CandidateSource :=
  ⟨p.sourceConversationId.filter (· ≠ ""), p.sourceMessageId.filter (· ≠ "")⟩

end CurationProposal

/-! ### Histories -/

/-- The documents, the ids that were given to any, and the decisions. -/
structure SourceState where
  documents : String → Option KbDocument
  given : List String
  decisions : List KbCurationDecision := []

namespace SourceState

/-- A document is written. -/
def put (s : SourceState) (id : String) (doc : KbDocument) : SourceState :=
  { s with documents := Function.update s.documents id (some doc), given := id :: s.given }

/-- The candidate is removed, and the decision on it recorded. -/
def decided (s : SourceState) (id : String) (decision : Option KbCurationDecision) :
    SourceState :=
  { s with
    documents := Function.update s.documents id none
    decisions := s.decisions ++ decision.toList }

end SourceState

/-- The request goes through for the candidate as it was read; what is published gets the id that is
given. -/
def CurationOp.run (s : SourceState) (candidate : KbDocument) (publishedId : String)
    (op : CurationOp) : Option SourceState :=
  match op with
  | .publishCandidate _ audiences =>
    if publishedId ∈ s.given then none
    else
      let published := publishedFrom candidate publishedId audiences
      some ((s.put publishedId published).decided candidate.id
        (op.decision candidate (some published)))
  | .publishRevision _ ifDocumentVersion =>
    (extractCandidateRefs candidate.tags).revisesDocumentId.bind fun revisedId =>
      ((s.documents revisedId).filter (·.version = ifDocumentVersion)).map fun revised =>
        let updated := (KbWrite.update revised.title candidate.body revised.sourceUrl
          revised.audiences revised.tags).set revised revised
        (s.put revisedId updated).decided candidate.id (op.decision candidate (some updated))
  | .dismiss .. | .delete _ => some (s.decided candidate.id (op.decision candidate none))

/-- A request that goes through. -/
inductive SourceMove where
  | propose (id : String) (p : CurationProposal)
  | revise (id : String) (title body : String)
  | decide (id : String) (op : CurationOp) (publishedId : String)

/-- One request. One that is refused changes nothing, and is no step. -/
def SourceState.step (s : SourceState) : SourceMove → Option SourceState
  | .propose id p =>
    if id ∈ s.given then none
    else (p.propose s.documents s.decisions id).toOption.map (s.put id ·)
  | .revise id title body =>
    (s.documents id).map fun doc => s.put id
      ((KbWrite.update title body doc.sourceUrl doc.audiences doc.tags).set doc doc)
  | .decide id op publishedId =>
    ((s.documents id).filter (op.accepts ·)).bind fun candidate => op.run s candidate publishedId

/-- Proposals, edits that leave the tags, and decisions, one after the other. -/
def sourceMachine : Machine SourceState SourceMove :=
  ⟨SourceState.step⟩

/-- Nothing is proposed yet, and nothing decided. -/
def SourceState.Fresh (s : SourceState) : Prop :=
  (∀ id doc, s.documents id = some doc →
    doc.id = id ∧ id ∈ s.given ∧ doc.tags.contains "candidate" = false) ∧ s.decisions = []

/-- A candidate of this source was decided. -/
def DecidedFrom (moves : List SourceMove) (src : CandidateSource) : Prop :=
  ∃ id p op publishedId, .propose id p ∈ moves ∧ .decide id op publishedId ∈ moves ∧ p.source = src

/-- A candidate of this source was published as a document of its own. -/
def PublishedFrom (moves : List SourceMove) (src : CandidateSource) : Prop :=
  ∃ id p ifVersion audiences publishedId, .propose id p ∈ moves ∧
    .decide id (.publishCandidate ifVersion audiences) publishedId ∈ moves ∧ p.source = src

/-- Sources of one conversation that could be about one message of it. -/
def CandidateSource.Overlaps (a b : CandidateSource) : Prop :=
  a.conversation = b.conversation ∧
    (a.message = none ∨ b.message = none ∨ a.message = b.message)

/-! ### The tags of a candidate -/

section Tags

variable (refs : CandidateRefs) (value : Option String)

theorem CandidateRefs.foldl_source (h : refs.sourceConversationId = none) :
    (tagOf "source:" value).foldl read refs =
      { refs with sourceConversationId := value.filter (· ≠ "") } := by
  rw [tagOf]
  cases value.filter (· ≠ "") with
  | none => rw [Option.map_none, Option.toList_none, List.foldl_nil, ← h]
  | some v => simp [CandidateRefs.read, takesTag, jsStartsWith, afterPrefix, h]

theorem CandidateRefs.foldl_sourceMsg (h : refs.sourceMessageId = none) :
    (tagOf "source-msg:" value).foldl read refs =
      { refs with sourceMessageId := value.filter (· ≠ "") } := by
  rw [tagOf]
  cases value.filter (· ≠ "") with
  | none => rw [Option.map_none, Option.toList_none, List.foldl_nil, ← h]
  | some v => simp [CandidateRefs.read, takesTag, jsStartsWith, afterPrefix, h]

theorem CandidateRefs.foldl_target (h : refs.proposedTargetSpaceSlug = none) :
    (tagOf "target:" value).foldl read refs =
      { refs with proposedTargetSpaceSlug := value.filter (· ≠ "") } := by
  rw [tagOf]
  cases value.filter (· ≠ "") with
  | none => rw [Option.map_none, Option.toList_none, List.foldl_nil, ← h]
  | some v => simp [CandidateRefs.read, takesTag, jsStartsWith, afterPrefix, h]

theorem CandidateRefs.read_revises (v : String) (h : refs.revisesDocumentId = none) :
    refs.read ("revises:" ++ v) = { refs with revisesDocumentId := some v } := by
  simp [CandidateRefs.read, takesTag, jsStartsWith, afterPrefix, h]

end Tags

/-- What starts with a text that neither starts as another one nor is started by it does not start
as that one. -/
theorem startsWith_append {a b : String} (ha : jsStartsWith a b = false)
    (hb : jsStartsWith b a = false) (v : String) : jsStartsWith (a ++ v) b = false := by
  rw [← Bool.not_eq_true, jsStartsWith, List.isPrefixOf_iff_prefix, String.toList_append]
  intro h
  rcases List.prefix_or_prefix_of_prefix h (List.prefix_append a.toList v.toList) with h | h
  · exact Bool.false_ne_true (ha.symm.trans (List.isPrefixOf_iff_prefix.2 h))
  · exact Bool.false_ne_true (hb.symm.trans (List.isPrefixOf_iff_prefix.2 h))

/-- Tags of one kind do not start as those of another. -/
theorem startsWith_tagOf {a b : String} (ha : jsStartsWith a b = false)
    (hb : jsStartsWith b a = false) (value : Option String) :
    ∀ t ∈ tagOf a value, jsStartsWith t b = false := by
  intro t ht
  obtain ⟨v, -, rfl⟩ := Option.map_eq_some_iff.1 (Option.mem_toList.1 ht)
  exact startsWith_append ha hb v

variable {tags : List String} {documents : String → Option KbDocument}
  {decisions : List KbCurationDecision} {d : KbCurationDecision}

/-- A tag of a new kind is a new tag. -/
theorem nodup_concat_tag (h : tags.Nodup) {start : String}
    (hnew : ∀ t ∈ tags, jsStartsWith t start = false) (v : String) :
    (tags ++ [start ++ v]).Nodup := by
  refine List.nodup_append.2 ⟨h, List.nodup_singleton _, fun t ht u hu => ?_⟩
  obtain rfl := List.mem_singleton.1 hu
  rintro rfl
  have hstarts : jsStartsWith (start ++ v) start = true := by
    rw [jsStartsWith, String.toList_append]
    exact List.isPrefixOf_iff_prefix.2 (List.prefix_append _ _)
  exact Bool.false_ne_true ((hnew _ ht).symm.trans hstarts)

theorem nodup_append_tagOf (h : tags.Nodup) {start : String}
    (hnew : ∀ t ∈ tags, jsStartsWith t start = false) (value : Option String) :
    (tags ++ tagOf start value).Nodup := by
  rw [tagOf]
  cases value.filter (· ≠ "") with
  | none => rwa [Option.map_none, Option.toList_none, List.append_nil]
  | some v => exact nodup_concat_tag h hnew v

/-- Tags that differ stay as they are. -/
theorem dedupeTags_of_nodup (h : tags.Nodup) : dedupeTags tags = tags := by
  unfold dedupeTags
  induction tags with
  | nil => rfl
  | cons t tags ih =>
    obtain ⟨ht, htags⟩ := List.nodup_cons.1 h
    have hkeep : tags.filter (fun u => !u == t) = tags := by
      rw [List.filter_eq_self]
      intro u hu
      rw [Bool.not_eq_true', beq_eq_false_iff_ne]
      rintro rfl
      exact ht hu
    rw [List.eraseDups_cons, hkeep, ih htags]

/-- The document is a candidate of the source of a proposal. -/
structure KbDocument.DrawnFrom (doc : KbDocument) (src : CandidateSource) : Prop where
  candidate : doc.tags.contains "candidate" = true
  conversation : (extractCandidateRefs doc.tags).sourceConversationId = src.conversation
  message : (extractCandidateRefs doc.tags).sourceMessageId = src.message

/-- A proposal whose title is known goes to the guard, if it names a conversation. -/
theorem CurationProposal.propose_eq {p : CurationProposal}
    {title : String} (h : p.titleIn documents = .ok title) (decisions : List KbCurationDecision)
    (id : String) : p.propose documents decisions id =
      match p.source.conversation with
      | some c => (assertSourceNotDecided decisions c p.sourceMessageId).map
          fun _ => p.document id title
      | none => .ok (p.document id title) := by
  rw [propose, h, source]
  cases p.sourceConversationId.filter (· ≠ "") with
  | none => rfl
  | some c =>
    dsimp only
    change (assertSourceNotDecided decisions c p.sourceMessageId).bind (fun _ => .ok _) = _
    cases assertSourceNotDecided decisions c p.sourceMessageId with
    | error e => rfl
    | ok u => rfl

@[simp]
theorem CurationProposal.document_id (p : CurationProposal) (id title : String) :
    (p.document id title).id = id := rfl

/-- What is filed is the candidate. -/
theorem CurationProposal.eq_document (p : CurationProposal) {id : String}
    {doc : KbDocument} (h : (p.propose documents decisions id).toOption = some doc) :
    ∃ title, doc = p.document id title := by
  cases htitle : p.titleIn documents with
  | error e =>
    rw [propose, htitle] at h
    cases h
  | ok title =>
    refine ⟨title, ?_⟩
    rw [propose_eq htitle] at h
    split at h
    · cases hguard : assertSourceNotDecided decisions _ p.sourceMessageId with
      | error e =>
        rw [hguard] at h
        cases h
      | ok u =>
        rw [hguard] at h
        exact (Option.some.inj h).symm
    · exact (Option.some.inj h).symm

/-- The tags of a candidate differ, so that all of them are kept. -/
theorem CurationProposal.tags_candidate (subject draftBody : String)
    (conversation : Option String) (messages : Option (List String)) (target : Option String) :
    (candidate subject draftBody conversation messages target).tags =
      ["curation", "candidate"] ++ tagOf "source:" conversation ++
        tagOf "source-msg:" (messages.bind (·.head?)) ++ tagOf "target:" target := by
  have hconst : ∀ start ∈ ["source:", "source-msg:", "target:"],
      ∀ t ∈ ["curation", "candidate"], jsStartsWith t start = false := by decide
  refine dedupeTags_of_nodup (nodup_append_tagOf (nodup_append_tagOf (nodup_append_tagOf
    (by decide) (hconst _ (by decide)) _) ?_ _) ?_ _)
  · exact List.forall_mem_append.2
      ⟨hconst _ (by decide), startsWith_tagOf (by decide) (by decide) _⟩
  · exact List.forall_mem_append.2 ⟨List.forall_mem_append.2 ⟨hconst _ (by decide),
      startsWith_tagOf (by decide) (by decide) _⟩, startsWith_tagOf (by decide) (by decide) _⟩

/-- So do those of a revision. -/
theorem CurationProposal.tags_revision (revised draftBody : String)
    (subject conversation message : Option String) :
    (revision revised draftBody subject conversation message).tags =
      ["curation", "candidate", "revision", "revises:" ++ revised] ++
        tagOf "source:" conversation ++ tagOf "source-msg:" message := by
  have hwords : ∀ start ∈ ["revises:", "source:", "source-msg:"],
      ∀ t ∈ ["curation", "candidate", "revision"], jsStartsWith t start = false := by decide
  have hkinds : ∀ start ∈ ["source:", "source-msg:"], jsStartsWith "revises:" start = false ∧
      jsStartsWith start "revises:" = false := by decide
  have hconst : ∀ start ∈ ["source:", "source-msg:"],
      ∀ t ∈ ["curation", "candidate", "revision"] ++ ["revises:" ++ revised],
        jsStartsWith t start = false := by
    intro start hstart
    obtain ⟨ha, hb⟩ := hkinds start hstart
    refine List.forall_mem_append.2 ⟨hwords start (List.mem_cons_of_mem _ hstart), fun t ht => ?_⟩
    obtain rfl := List.mem_singleton.1 ht
    exact startsWith_append ha hb revised
  have hfirst : (["curation", "candidate", "revision"] ++ ["revises:" ++ revised]).Nodup :=
    nodup_concat_tag (by decide) (hwords _ (by decide)) revised
  refine dedupeTags_of_nodup (nodup_append_tagOf (nodup_append_tagOf hfirst
    (hconst _ (by decide)) _) ?_ _)
  exact List.forall_mem_append.2
    ⟨hconst _ (by decide), startsWith_tagOf (by decide) (by decide) _⟩

/-- What a proposal files says what it is drawn from. -/
theorem CurationProposal.drawnFrom_document (p : CurationProposal) (id title : String) :
    (p.document id title).DrawnFrom p.source := by
  cases p with
  | candidate subject draftBody conversation messages target =>
    have htags := tags_candidate subject draftBody conversation messages target
    have hrefs : extractCandidateRefs (candidate subject draftBody conversation messages
        target).tags = ⟨target.filter (· ≠ ""), conversation.filter (· ≠ ""),
          (messages.bind (·.head?)).filter (· ≠ ""), none⟩ := by
      rw [htags, extractCandidateRefs, List.foldl_append, List.foldl_append, List.foldl_append,
        show ["curation", "candidate"].foldl CandidateRefs.read {} = {} by decide,
        CandidateRefs.foldl_source _ _ rfl, CandidateRefs.foldl_sourceMsg _ _ rfl,
        CandidateRefs.foldl_target _ _ rfl]
    refine ⟨?_, congrArg CandidateRefs.sourceConversationId hrefs,
      congrArg CandidateRefs.sourceMessageId hrefs⟩
    simp [document, htags]
  | revision revised draftBody subject conversation message =>
    have htags := tags_revision revised draftBody subject conversation message
    have hrefs : extractCandidateRefs (revision revised draftBody subject conversation
        message).tags = ⟨none, conversation.filter (· ≠ ""), message.filter (· ≠ ""),
          some revised⟩ := by
      rw [htags, extractCandidateRefs, List.foldl_append, List.foldl_append,
        show ["curation", "candidate", "revision", "revises:" ++ revised] =
          ["curation", "candidate", "revision"] ++ ["revises:" ++ revised] from rfl,
        List.foldl_append,
        show ["curation", "candidate", "revision"].foldl CandidateRefs.read {} = {} by decide,
        List.foldl_cons, List.foldl_nil, CandidateRefs.read_revises _ _ rfl,
        CandidateRefs.foldl_source _ _ rfl, CandidateRefs.foldl_sourceMsg _ _ rfl]
    refine ⟨?_, congrArg CandidateRefs.sourceConversationId hrefs,
      congrArg CandidateRefs.sourceMessageId hrefs⟩
    simp [document, htags]

/-- What is published of a candidate is none. -/
theorem contains_stripCandidateTags (tags : List String) :
    (stripCandidateTags tags).contains "candidate" = false := by
  rw [← Bool.not_eq_true, List.contains_iff_mem, stripCandidateTags, List.mem_filter]
  simp

/-! ### What a history keeps -/

/-- Whether a decision records the message that the candidate is drawn from. -/
def CurationOp.recordsMessage : CurationOp → Bool
  | .publishCandidate .. => false
  | .publishRevision .. | .dismiss .. | .delete _ => true

/-- The decision is one on a candidate of this source. -/
structure Records (d : KbCurationDecision) (op : CurationOp) (src : CandidateSource) : Prop where
  conversation : d.sourceConversationId = src.conversation
  message : d.sourceMessageId = if op.recordsMessage then src.message else none

/-- The decision on a candidate records what it is drawn from. -/
theorem CurationOp.exists_decision (op : CurationOp) {candidate : KbDocument}
    {src : CandidateSource} (h : candidate.DrawnFrom src) (published : Option KbDocument) :
    ∃ d, op.decision candidate published = some d ∧ Records d op src := by
  cases op with
  | publishCandidate ifVersion audiences => exact ⟨_, rfl, h.conversation, rfl⟩
  | publishRevision ifCandidateVersion ifDocumentVersion =>
    exact ⟨_, rfl, h.conversation, h.message⟩
  | dismiss ifVersion reason => exact ⟨_, if_pos h.candidate, h.conversation, h.message⟩
  | delete ifVersion => exact ⟨_, if_pos h.candidate, h.conversation, h.message⟩

/-- There are decisions on candidates only. -/
theorem CurationOp.contains_of_decision {op : CurationOp} {candidate : KbDocument}
    (haccepts : op.accepts candidate = true) {published : Option KbDocument}
    (h : op.decision candidate published = some d) :
    candidate.tags.contains "candidate" = true := by
  rw [CurationOp.accepts, Bool.and_eq_true] at haccepts
  obtain ⟨hadmits, -⟩ := haccepts
  cases op with
  | publishCandidate ifVersion audiences => exact (Bool.and_eq_true_iff.1 hadmits).1
  | publishRevision ifCandidateVersion ifDocumentVersion => exact (Bool.and_eq_true_iff.1 hadmits).1
  | dismiss ifVersion reason => exact hadmits
  | delete ifVersion =>
    rw [CurationOp.decision] at h
    split at h
    · assumption
    · cases h

/-- What the moves say of a document: what it is drawn from if it was proposed, and that it was, if
it is a candidate. -/
structure Filed (moves : List SourceMove) (id : String) (doc : KbDocument) : Prop where
  drawn : ∀ p, .propose id p ∈ moves → doc.DrawnFrom p.source
  proposed : doc.tags.contains "candidate" = true → ∃ p, .propose id p ∈ moves

/-- The invariant: each candidate was proposed, and has the source of its proposal in its tags; and
the decisions are those on the candidates that were proposed and decided. -/
structure SourceOk (moves : List SourceMove) (s : SourceState) : Prop where
  named : ∀ id doc, s.documents id = some doc → doc.id = id ∧ id ∈ s.given
  filed : ∀ id doc, s.documents id = some doc → Filed moves id doc
  proposed : ∀ id p, .propose id p ∈ moves → id ∈ s.given
  decided : ∀ id op publishedId, .decide id op publishedId ∈ moves → id ∈ s.given
  sound : ∀ d ∈ s.decisions, ∃ id p op publishedId, .propose id p ∈ moves ∧
    .decide id op publishedId ∈ moves ∧ Records d op p.source
  complete : ∀ id p op publishedId, .propose id p ∈ moves → .decide id op publishedId ∈ moves →
    ∃ d ∈ s.decisions, Records d op p.source

section Keeps

variable {moves : List SourceMove} {s s' : SourceState} {id : String}

variable {doc : KbDocument}

/-- The documents after one is written: that one, and the others. -/
theorem SourceState.documents_put {i : String} {d : KbDocument}
    (h : (s.put id doc).documents i = some d) :
    (i = id ∧ d = doc) ∨ (i ≠ id ∧ s.documents i = some d) := by
  have hput : Function.update s.documents id (some doc) i = some d := h
  by_cases hi : i = id
  · subst hi
    rw [Function.update_self, Option.some.injEq] at hput
    exact .inl ⟨rfl, hput.symm⟩
  · rw [Function.update_of_ne hi] at hput
    exact .inr ⟨hi, hput⟩

theorem SourceOk.named_put (hs : SourceOk moves s) (hid : doc.id = id)
    {i : String} {d : KbDocument} (h : (s.put id doc).documents i = some d) :
    d.id = i ∧ i ∈ (s.put id doc).given := by
  rcases SourceState.documents_put h with ⟨rfl, rfl⟩ | ⟨-, hd⟩
  · exact ⟨hid, List.mem_cons_self⟩
  · obtain ⟨hname, hgiven⟩ := hs.named i d hd
    exact ⟨hname, List.mem_cons_of_mem _ hgiven⟩

/-- A document is written that is as the moves say. -/
theorem SourceOk.put (hs : SourceOk moves s) (hid : doc.id = id)
    (hfiled : Filed moves id doc) : SourceOk moves (s.put id doc) where
  named i d hd := hs.named_put hid hd
  filed i d hd := by
    rcases SourceState.documents_put hd with ⟨rfl, rfl⟩ | ⟨-, hd⟩
    · exact hfiled
    · exact hs.filed i d hd
  proposed i p h := List.mem_cons_of_mem _ (hs.proposed i p h)
  decided i op publishedId h := List.mem_cons_of_mem _ (hs.decided i op publishedId h)
  sound := hs.sound
  complete := hs.complete

/-- An edit that leaves the tags. -/
theorem Filed.of_tags {doc' : KbDocument} (h : Filed moves id doc)
    (htags : doc'.tags = doc.tags) : Filed moves id doc' where
  drawn p hp := by
    obtain ⟨hcandidate, hconversation, hmessage⟩ := h.drawn p hp
    exact ⟨htags ▸ hcandidate, htags ▸ hconversation, htags ▸ hmessage⟩
  proposed hcandidate := h.proposed (htags ▸ hcandidate)

/-- An edit, in a longer history. -/
theorem SourceOk.edited (hs : SourceOk moves s) {title body : String} :
    SourceOk (moves ++ [.revise id title body]) s := by
  have hpropose : ∀ i p, .propose i p ∈ moves ++ [.revise id title body] ↔
      .propose i p ∈ moves := by simp
  have hdecide : ∀ i op published, .decide i op published ∈ moves ++ [.revise id title body] ↔
      .decide i op published ∈ moves := by simp
  refine ⟨hs.named, fun i d hd => ⟨?_, ?_⟩, ?_, ?_, ?_, ?_⟩
  · simpa only [hpropose] using (hs.filed i d hd).drawn
  · simpa only [hpropose] using (hs.filed i d hd).proposed
  · simpa only [hpropose] using hs.proposed
  · simpa only [hdecide] using hs.decided
  · simpa only [hpropose, hdecide] using hs.sound
  · simpa only [hpropose, hdecide] using hs.complete

/-- A candidate is filed under an id that is new. -/
theorem SourceOk.propose (hs : SourceOk moves s) {p : CurationProposal}
    (h : s.step (.propose id p) = some s') : SourceOk (moves ++ [.propose id p]) s' := by
  rw [SourceState.step] at h
  split at h
  · cases h
  · rename_i hnew
    obtain ⟨doc, hdoc, rfl⟩ := Option.map_eq_some_iff.1 h
    obtain ⟨title, rfl⟩ := p.eq_document hdoc
    have hpropose : ∀ i q, .propose i q ∈ moves ++ [.propose id p] ↔
        .propose i q ∈ moves ∨ (i = id ∧ q = p) := by simp
    have hdecide : ∀ i op published, .decide i op published ∈ moves ++ [.propose id p] ↔
        .decide i op published ∈ moves := by simp
    refine ⟨fun i d hd => hs.named_put (p.document_id id title) hd, fun i d hd => ?_,
      fun i q hq => ?_,
      fun i op published h => ?_, fun d hd => ?_, fun i q op published hq hop => ?_⟩
    · rcases SourceState.documents_put hd with ⟨rfl, rfl⟩ | ⟨hi, hd⟩
      · refine ⟨fun q hq => ?_, fun _ => ⟨p, (hpropose _ _).2 (.inr ⟨rfl, rfl⟩)⟩⟩
        rcases (hpropose _ _).1 hq with hq | ⟨-, rfl⟩
        · exact absurd (hs.proposed _ _ hq) hnew
        · exact q.drawnFrom_document _ title
      · obtain ⟨hdrawn, hproposed⟩ := hs.filed i d hd
        refine ⟨fun q hq => ?_, fun hcandidate => ?_⟩
        · exact hdrawn q (((hpropose _ _).1 hq).resolve_right fun h => hi h.1)
        · obtain ⟨q, hq⟩ := hproposed hcandidate
          exact ⟨q, (hpropose _ _).2 (.inl hq)⟩
    · rcases (hpropose _ _).1 hq with hq | ⟨rfl, -⟩
      · exact List.mem_cons_of_mem _ (hs.proposed i q hq)
      · exact List.mem_cons_self
    · exact List.mem_cons_of_mem _ (hs.decided i op published ((hdecide _ _ _).1 h))
    · obtain ⟨i, q, op, published, hq, hop, hrecords⟩ := hs.sound d hd
      exact ⟨i, q, op, published, (hpropose _ _).2 (.inl hq), (hdecide _ _ _).2 hop, hrecords⟩
    · have hold := (hdecide _ _ _).1 hop
      rcases (hpropose _ _).1 hq with hq | ⟨rfl, -⟩
      · exact hs.complete i q op published hq hold
      · exact absurd (hs.decided _ _ _ hold) hnew

variable {op : CurationOp}

/-- The candidate is removed, and the decision recorded. -/
theorem SourceOk.decide (hs : SourceOk moves s) {candidate : KbDocument}
    (hgiven : id ∈ s.given) (hfiled : Filed moves id candidate)
    (haccepts : op.accepts candidate = true) (published : Option KbDocument)
    (publishedId : String) :
    SourceOk (moves ++ [.decide id op publishedId])
      (s.decided id (op.decision candidate published)) := by
  have hpropose : ∀ i p, .propose i p ∈ moves ++ [.decide id op publishedId] ↔
      .propose i p ∈ moves := by simp
  have hdecide : ∀ i o u, .decide i o u ∈ moves ++ [.decide id op publishedId] ↔
      .decide i o u ∈ moves ∨ (i = id ∧ o = op ∧ u = publishedId) := by simp
  have hleft : ∀ i d, (s.decided id (op.decision candidate published)).documents i = some d →
      s.documents i = some d := by
    intro i d hd
    have hgone : Function.update s.documents id none i = some d := hd
    by_cases hi : i = id
    · subst hi
      rw [Function.update_self] at hgone
      cases hgone
    · rwa [Function.update_of_ne hi] at hgone
  refine ⟨fun i d hd => hs.named i d (hleft i d hd), fun i d hd => ?_, ?_, fun i o u h => ?_,
    fun d hd => ?_, fun i p o u hp ho => ?_⟩
  · obtain ⟨hdrawn, hproposed⟩ := hs.filed i d (hleft i d hd)
    refine ⟨?_, ?_⟩
    · simpa only [hpropose] using hdrawn
    · simpa only [hpropose] using hproposed
  · intro i p hp
    exact hs.proposed i p ((hpropose i p).1 hp)
  · rcases (hdecide _ _ _).1 h with h | ⟨rfl, -⟩
    · exact hs.decided i o u h
    · exact hgiven
  · rcases List.mem_append.1 hd with hd | hd
    · obtain ⟨i, p, o, u, hp, ho, hrecords⟩ := hs.sound d hd
      exact ⟨i, p, o, u, (hpropose _ _).2 hp, (hdecide _ _ _).2 (.inl ho), hrecords⟩
    · -- the decision is new, and on a candidate, which was proposed
      have hnew := Option.mem_toList.1 hd
      obtain ⟨p, hp⟩ := hfiled.proposed (CurationOp.contains_of_decision haccepts hnew)
      obtain ⟨d', hd', hrecords⟩ := op.exists_decision (hfiled.drawn p hp) published
      obtain rfl := Option.some.inj (hnew.symm.trans hd')
      exact ⟨id, p, op, publishedId, (hpropose _ _).2 hp, (hdecide _ _ _).2 (.inr ⟨rfl, rfl, rfl⟩),
        hrecords⟩
  · have hold := (hpropose _ _).1 hp
    rcases (hdecide _ _ _).1 ho with ho | ⟨rfl, rfl, rfl⟩
    · obtain ⟨d, hd, hrecords⟩ := hs.complete i p o u hold ho
      exact ⟨d, List.mem_append_left _ hd, hrecords⟩
    · obtain ⟨d, hd, hrecords⟩ := o.exists_decision (hfiled.drawn p hold) published
      exact ⟨d, List.mem_append_right _ (Option.mem_toList.2 hd), hrecords⟩

/-- A request that decides a candidate. -/
theorem SourceOk.run (hs : SourceOk moves s) {publishedId : String}
    (h : s.step (.decide id op publishedId) = some s') :
    SourceOk (moves ++ [.decide id op publishedId]) s' := by
  obtain ⟨candidate, hread, hrun⟩ := Option.bind_eq_some_iff.1 h
  obtain ⟨hcandidate, haccepts⟩ := Option.filter_eq_some_iff.1 hread
  obtain ⟨rfl, hgiven⟩ := hs.named id candidate hcandidate
  have hfiled := hs.filed _ candidate hcandidate
  cases op with
  | publishCandidate ifVersion audiences =>
    rw [CurationOp.run] at hrun
    split at hrun
    · cases hrun
    · rename_i hnew
      obtain rfl := Option.some.inj hrun
      have hpublished : Filed moves publishedId
          (publishedFrom candidate publishedId audiences) := by
        refine ⟨fun p hp => absurd (hs.proposed _ p hp) hnew, fun h => ?_⟩
        exact absurd ((contains_stripCandidateTags _).symm.trans h) Bool.false_ne_true
      have hname : (publishedFrom candidate publishedId audiences).id = publishedId := rfl
      exact (hs.put hname hpublished).decide (List.mem_cons_of_mem _ hgiven) hfiled haccepts _ _
  | publishRevision ifCandidateVersion ifDocumentVersion =>
    obtain ⟨revisedId, -, hrevised⟩ := Option.bind_eq_some_iff.1 hrun
    obtain ⟨revised, hread, rfl⟩ := Option.map_eq_some_iff.1 hrevised
    obtain ⟨hrevised, -⟩ := Option.filter_eq_some_iff.1 hread
    obtain ⟨hname, -⟩ := hs.named revisedId revised hrevised
    let updated := (KbWrite.update revised.title candidate.body revised.sourceUrl revised.audiences
      revised.tags).set revised revised
    have hupdated : Filed moves revisedId updated :=
      (hs.filed revisedId revised hrevised).of_tags rfl
    have hid : updated.id = revisedId := hname
    exact (hs.put hid hupdated).decide (List.mem_cons_of_mem _ hgiven) hfiled haccepts _ _
  | dismiss ifVersion reason =>
    obtain rfl := Option.some.inj hrun
    exact hs.decide hgiven hfiled haccepts none _
  | delete ifVersion =>
    obtain rfl := Option.some.inj hrun
    exact hs.decide hgiven hfiled haccepts none _

theorem SourceOk.step (hs : SourceOk moves s) {a : SourceMove} (h : s.step a = some s') :
    SourceOk (moves ++ [a]) s' := by
  cases a with
  | propose id p => exact hs.propose h
  | revise id title body =>
    obtain ⟨doc, hdoc, rfl⟩ := Option.map_eq_some_iff.1 h
    obtain ⟨hname, -⟩ := hs.named id doc hdoc
    exact hs.edited.put hname ((hs.edited.filed id doc hdoc).of_tags rfl)
  | decide id op publishedId => exact hs.run h

end Keeps

theorem sourceOk_of_run {s₀ s : SourceState} (h₀ : s₀.Fresh) {moves : List SourceMove}
    (h : sourceMachine.run s₀ moves = some s) : SourceOk moves s := by
  induction moves using List.reverseRecOn generalizing s with
  | nil =>
    obtain rfl := Option.some.inj h
    obtain ⟨hdocuments, hdecisions⟩ := h₀
    have hnone : ∀ a : SourceMove, a ∉ [] := fun _ => List.not_mem_nil
    refine ⟨fun id doc hdoc => ?_, fun id doc hdoc => ⟨fun p h => absurd h (hnone _),
      fun hcandidate => ?_⟩, fun id p h => absurd h (hnone _), fun id op u h => absurd h (hnone _),
        fun d hd => ?_, fun id p op u h => absurd h (hnone _)⟩
    · obtain ⟨hid, hgiven, -⟩ := hdocuments id doc hdoc
      exact ⟨hid, hgiven⟩
    · obtain ⟨-, -, hnot⟩ := hdocuments id doc hdoc
      exact absurd (hnot.symm.trans hcandidate) Bool.false_ne_true
    · rw [hdecisions] at hd
      cases hd
  | append_singleton moves a ih =>
    obtain ⟨u, hu, hstep⟩ := (Machine.run_concat_eq_some _).1 h
    exact (ih hu).step hstep

/-! ### Refusals -/

variable {m : Option String}

/-- The guard refuses if there is a decision that the source could be about. -/
theorem exists_error_iff {c : String} :
    (∃ c' outcome m', assertSourceNotDecided decisions c m = .error (.decided c' outcome m')) ↔
      ∃ d ∈ decisions, d.isAbout c m = true := by
  rw [assertSourceNotDecided]
  cases hlast : (decisions.filter (·.isAbout c m)).getLast? with
  | none =>
    have hnone : decisions.filter (·.isAbout c m) = [] := List.getLast?_eq_none_iff.1 hlast
    refine ⟨nofun, fun ⟨d, hd, habout⟩ => ?_⟩
    have hmem := List.mem_filter.2 ⟨hd, habout⟩
    rw [hnone] at hmem
    cases hmem
  | some d =>
    obtain ⟨hd, habout⟩ := List.mem_filter.1 (List.mem_of_getLast? hlast)
    exact ⟨fun _ => ⟨d, hd, habout⟩, fun _ => ⟨c, d.outcome, d.sourceMessageId, rfl⟩⟩

/-- Which decisions those are. -/
theorem isAbout_iff {c : String} : d.isAbout c m = true ↔ d.sourceConversationId = some c ∧
      (m.filter (· ≠ "") = none ∨ d.sourceMessageId = none ∨
        d.sourceMessageId = m.filter (· ≠ "")) := by
  cases m with
  | none => simp [KbCurationDecision.isAbout]
  | some v =>
    by_cases hv : v = ""
    · simp [KbCurationDecision.isAbout, truthy, hv]
    · simp [KbCurationDecision.isAbout, truthy, Option.filter, hv]

/-- **Decided sources are refused exactly.** After any history, a proposal that gets as far as the
guard is refused if it names a conversation from which a candidate of an overlapping source was
decided; and only then, provided that `publishCurationCandidate` has published none from another
message of it. -/
theorem decided_sources_refused {s₀ s : SourceState} (h₀ : s₀.Fresh) {moves : List SourceMove}
    (h : sourceMachine.run s₀ moves = some s) {p : CurationProposal} {title : String}
    (htitle : p.titleIn s.documents = .ok title) (id : String) :
    (p.source.conversation ≠ none → (∃ src, DecidedFrom moves src ∧ src.Overlaps p.source) →
      ∃ c outcome m, p.propose s.documents s.decisions id = .error (.decided c outcome m)) ∧
    ((∀ src, PublishedFrom moves src → src.conversation = p.source.conversation →
        src.Overlaps p.source) →
      (∃ c outcome m, p.propose s.documents s.decisions id = .error (.decided c outcome m)) →
        p.source.conversation ≠ none ∧
          ∃ src, DecidedFrom moves src ∧ src.Overlaps p.source) := by
  have hs := sourceOk_of_run h₀ h
  rw [CurationProposal.propose_eq htitle]
  cases hconversation : p.source.conversation with
  | none => simp
  | some c =>
    have hguard : (∃ c' outcome m', (assertSourceNotDecided s.decisions c p.sourceMessageId).map
        (fun _ => p.document id title) = .error (.decided c' outcome m')) ↔
          ∃ d ∈ s.decisions, d.isAbout c p.sourceMessageId = true := by
      rw [← exists_error_iff]
      cases assertSourceNotDecided s.decisions c p.sourceMessageId with
      | error e => simp [Except.map]
      | ok u => simp [Except.map]
    rw [hguard]
    constructor
    · -- A decision on an overlapping source is about this one, whatever it says of the message.
      rintro - ⟨src, ⟨i, q, op, published, hq, hop, rfl⟩, hsame, hm⟩
      obtain ⟨d, hd, hrecords⟩ := hs.complete i q op published hq hop
      refine ⟨d, hd, isAbout_iff.2 ⟨?_, ?_⟩⟩
      · rw [hrecords.conversation, hsame, hconversation]
      · rw [hrecords.message]
        change q.source.message = none ∨ p.sourceMessageId.filter (· ≠ "") = none ∨
          q.source.message = p.sourceMessageId.filter (· ≠ "") at hm
        split
        · exact or_left_comm.1 hm
        · exact .inr (.inl rfl)
    · rintro hpublished ⟨d, hd, habout⟩
      refine ⟨Option.some_ne_none c, ?_⟩
      obtain ⟨hc, hm⟩ := isAbout_iff.1 habout
      obtain ⟨i, q, op, published, hq, hop, hrecords⟩ := hs.sound d hd
      refine ⟨q.source, ⟨i, q, op, published, hq, hop, rfl⟩, ?_⟩
      have hsame : q.source.conversation = p.source.conversation := by
        rw [← hrecords.conversation, hc, hconversation]
      cases hop' : op.recordsMessage with
      | true =>
        have hmessage := hrecords.message
        rw [hop', if_pos rfl] at hmessage
        rw [hmessage] at hm
        exact ⟨hsame, or_left_comm.1 hm⟩
      | false =>
        cases op with
        | publishCandidate ifVersion audiences =>
          exact hpublished _ ⟨i, q, ifVersion, audiences, published, hq, hop, rfl⟩
            (hsame.trans hconversation)
        | publishRevision ifCandidateVersion ifDocumentVersion => cases hop'
        | dismiss ifVersion reason => cases hop'
        | delete ifVersion => cases hop'

/-! ### Histories -/

/-- A knowledge base without documents. -/
def emptyKb : SourceState where
  documents _ := none
  given := []

theorem fresh_emptyKb : emptyKb.Fresh :=
  ⟨nofun, rfl⟩

/-- A candidate that is drawn from a conversation, or from a message of it. -/
def drawnFrom (message : Option String) : CurationProposal :=
  .candidate "a" "b" (some "c") (message.map ([·])) none

/-- What is dismissed is drawn from the conversation. -/
def dismissedConversation : List SourceMove :=
  [.propose "d" (drawnFrom none), .decide "d" (.dismiss 1 none) ""]

/-- What is published is drawn from a message. -/
def publishedMessage : List SourceMove :=
  [.propose "d" (drawnFrom (some "m")), .decide "d" (.publishCandidate 1 none) "e"]

/-- The proposal is refused although nothing was decided from its source. -/
def RefusedWithout (moves : List SourceMove) (p : CurationProposal) : Prop :=
  ∃ s, sourceMachine.run emptyKb moves = some s ∧
    (∃ c outcome m, p.propose s.documents s.decisions "f" = .error (.decided c outcome m)) ∧
      ¬ DecidedFrom moves p.source

/-- **A source is refused from which nothing was decided**: by a decision that is about the whole
conversation, and by one that does not say which message of it it is about. -/
theorem refused_without_same_source :
    RefusedWithout dismissedConversation (drawnFrom (some "m")) ∧
      RefusedWithout publishedMessage (drawnFrom (some "n")) := by
  constructor
  · have hrun : (sourceMachine.run emptyKb dismissedConversation).map (fun s =>
        (drawnFrom (some "m")).propose s.documents s.decisions "f") =
          some (.error (.decided "c" .dismissed none)) := by decide +kernel
    obtain ⟨s, hs, hrefused⟩ := Option.map_eq_some_iff.1 hrun
    refine ⟨s, hs, ⟨_, _, _, hrefused⟩, ?_⟩
    rintro ⟨id, p, op, published, hp, -, hsource⟩
    obtain ⟨rfl, rfl⟩ : id = "d" ∧ p = drawnFrom none := by
      simpa [dismissedConversation] using hp
    exact absurd hsource (by decide)
  · have hrun : (sourceMachine.run emptyKb publishedMessage).map (fun s =>
        (drawnFrom (some "n")).propose s.documents s.decisions "f") =
          some (.error (.decided "c" .published none)) := by decide +kernel
    obtain ⟨s, hs, hrefused⟩ := Option.map_eq_some_iff.1 hrun
    refine ⟨s, hs, ⟨_, _, _, hrefused⟩, ?_⟩
    rintro ⟨id, p, op, published, hp, -, hsource⟩
    obtain ⟨rfl, rfl⟩ : id = "d" ∧ p = drawnFrom (some "m") := by
      simpa [publishedMessage] using hp
    exact absurd hsource (by decide)

/-- What is dismissed is drawn from a message. -/
def dismissedMessage : List SourceMove :=
  [.propose "d" (drawnFrom (some "m")), .decide "d" (.dismiss 1 none) ""]

/-- Another proposal from that message is refused then, and one from another message is not. -/
theorem decided_sources_refused_sample : ∃ s,
    sourceMachine.run emptyKb dismissedMessage = some s ∧
      (∃ c outcome m, (drawnFrom (some "m")).propose s.documents s.decisions "f" =
        .error (.decided c outcome m)) ∧
      ¬ ∃ c outcome m, (drawnFrom (some "n")).propose s.documents s.decisions "f" =
        .error (.decided c outcome m) := by
  have hrun : (sourceMachine.run emptyKb dismissedMessage).isSome = true := by decide +kernel
  obtain ⟨s, hs⟩ := Option.isSome_iff_exists.1 hrun
  have hnone : ∀ src, ¬ PublishedFrom dismissedMessage src := by
    rintro src ⟨id, p, ifVersion, audiences, published, -, hop, -⟩
    simp [dismissedMessage] at hop
  have hdecided : ∀ src, DecidedFrom dismissedMessage src → src = ⟨some "c", some "m"⟩ := by
    rintro src ⟨id, p, op, published, hp, -, rfl⟩
    obtain ⟨-, rfl⟩ : id = "d" ∧ p = drawnFrom (some "m") := by
      simpa [dismissedMessage] using hp
    decide
  refine ⟨s, hs, ?_, ?_⟩
  · refine (decided_sources_refused fresh_emptyKb hs rfl "f").1 (by decide)
      ⟨⟨some "c", some "m"⟩, ?_, rfl, .inr (.inr rfl)⟩
    exact ⟨"d", drawnFrom (some "m"), .dismiss 1 none, "", by simp [dismissedMessage],
      by simp [dismissedMessage], by decide⟩
  · intro hrefused
    obtain ⟨-, src, hsrc, -, hoverlaps⟩ := (decided_sources_refused fresh_emptyKb hs rfl "f").2
      (fun src h => absurd h (hnone src)) hrefused
    rw [hdecided src hsrc] at hoverlaps
    revert hoverlaps
    decide

end Munin
