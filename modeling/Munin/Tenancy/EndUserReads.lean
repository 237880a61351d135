import Munin.Foundations.HiddenRows
import Mathlib.Data.Finset.Image

/-!
# What an end user's session reads

A session of the application role carries settings: its organisation, its end user, and the
knowledge-base spaces that the channel of its conversation is bound to. Policies on the tables
decide by them which rows the session reads; some look at rows of other tables, and those looks go
through the policies too.

* **`Session`**, **`Database`** — the settings, and the tables with their keys.
* **`ConversationPolicy`** and its siblings — the policies, each as its `USING` clause.
* **`DifferInHidden`** — two states that differ only in what the end user must not see.
* **`sameReads_iff`** — the session reads the same in both if and only if they have the same
  versions of documents that it must not see: the policy on versions looks at the organisation
  alone. `versions_leak` is a pair of states in which they differ.
-/

namespace Munin

namespace Rls

open Foundations

/-! ### Settings -/

/-- The settings of a transaction; `none` is a setting that was never made. -/
structure Session where
  orgId : Option String := none
  endUserId : Option String := none
  bypassRls : Option String := none
  kbSpaceIds : Option String := none

namespace Session

variable (σ : Session)

/-- `app_org_id()`. -/
def appOrgId : String := σ.orgId.getD ""

/-- `app_end_user_id()`. -/
def appEndUserId : String := σ.endUserId.getD ""

/-- `app_bypass_rls()`. -/
def AppBypassRls : Prop := σ.bypassRls.getD "off" = "on"

instance : Decidable σ.AppBypassRls := inferInstanceAs (Decidable (_ = _))

/-- `app_kb_space_ids()`; `none` is no restriction. -/
def appKbSpaceIds : Option (List String) :=
  (σ.kbSpaceIds.filter (· ≠ "")).map fun text => (text.toList.splitOn ',').map String.ofList

/-- Whether a space is one that the session is bound to, if it is bound at all. -/
def InSpaces (spaceId : String) : Prop :=
  ∀ ids ∈ σ.appKbSpaceIds, spaceId ∈ ids

instance (spaceId : String) : Decidable (σ.InSpaces spaceId) :=
  inferInstanceAs (Decidable (∀ _ ∈ _, _))

end Session

/-! ### Tables

Of each row: its key, what policies look at, and the rest of its columns as one text. -/

/-- `end_users`. -/
structure EndUser where
  id : String
  orgId : String
  columns : String := ""
  deriving DecidableEq

/-- `conv_conversations`. -/
structure Conversation where
  id : String
  orgId : String
  endUserId : Option String
  columns : String := ""
  deriving DecidableEq

/-- `conv_messages`. -/
structure Message where
  id : String
  orgId : String
  conversationId : String
  internal : Bool := false
  columns : String := ""
  deriving DecidableEq

/-- `conv_message_translations`. -/
structure MessageTranslation where
  id : String
  orgId : String
  conversationId : String
  messageId : String
  columns : String := ""
  deriving DecidableEq

/-- `conv_attachments`. -/
structure Attachment where
  id : String
  orgId : String
  conversationId : String
  messageId : Option String := none
  columns : String := ""
  deriving DecidableEq

/-- `kb_documents`. -/
structure Document where
  id : String
  orgId : String
  spaceId : String
  audiences : List String := ["admin"]
  columns : String := ""
  deriving DecidableEq

/-- `kb_document_chunks`. -/
structure DocumentChunk where
  id : String
  orgId : String
  documentId : String
  columns : String := ""
  deriving DecidableEq

/-- `kb_document_versions`. -/
structure DocumentVersion where
  id : String
  orgId : String
  documentId : String
  columns : String := ""
  deriving DecidableEq

/-- The tables, with the primary keys that other rows refer to. -/
structure Database where
  endUsers : Finset EndUser := ∅
  conversations : Finset Conversation := ∅
  messages : Finset Message := ∅
  messageTranslations : Finset MessageTranslation := ∅
  attachments : Finset Attachment := ∅
  documents : Finset Document := ∅
  documentChunks : Finset DocumentChunk := ∅
  documentVersions : Finset DocumentVersion := ∅
  conversationKey : Set.InjOn Conversation.id (conversations : Set Conversation)
  messageKey : Set.InjOn Message.id (messages : Set Message)
  documentKey : Set.InjOn Document.id (documents : Set Document)

/-! ### Policies -/

section Policies

variable (σ : Session) (db : Database)

/-- The policy of `end_users`. -/
def EndUserPolicy (u : EndUser) : Prop :=
  σ.AppBypassRls ∨ u.orgId = σ.appOrgId ∧ (σ.appEndUserId = "" ∨ u.id = σ.appEndUserId)

instance : DecidablePred (EndUserPolicy σ) := fun _ => inferInstanceAs (Decidable (_ ∨ _))

/-- The policy of `conv_conversations`. -/
def ConversationPolicy (c : Conversation) : Prop :=
  σ.AppBypassRls ∨
    c.orgId = σ.appOrgId ∧ (σ.appEndUserId = "" ∨ c.endUserId = some σ.appEndUserId)

instance : DecidablePred (ConversationPolicy σ) := fun _ => inferInstanceAs (Decidable (_ ∨ _))

/-- The rows of `conv_conversations` that the session reads, also from within a policy. -/
def readConversations : Finset Conversation := db.conversations.filter (ConversationPolicy σ)

/-- The policy of `conv_messages`. -/
def MessagePolicy (m : Message) : Prop :=
  σ.AppBypassRls ∨
    m.orgId = σ.appOrgId ∧
      (∃ c ∈ readConversations σ db, c.id = m.conversationId ∧
        (σ.appEndUserId = "" ∨ c.endUserId = some σ.appEndUserId)) ∧
      (σ.appEndUserId = "" ∨ m.internal = false)

instance : DecidablePred (MessagePolicy σ db) := fun _ => inferInstanceAs (Decidable (_ ∨ _))

/-- The rows of `conv_messages` that the session reads. -/
def readMessages : Finset Message := db.messages.filter (MessagePolicy σ db)

/-- The policy of `conv_message_translations`. -/
def MessageTranslationPolicy (t : MessageTranslation) : Prop :=
  σ.AppBypassRls ∨ t.orgId = σ.appOrgId ∧ σ.appEndUserId = ""

instance : DecidablePred (MessageTranslationPolicy σ) := fun _ =>
  inferInstanceAs (Decidable (_ ∨ _))

/-- The policy of `conv_attachments`. -/
def AttachmentPolicy (a : Attachment) : Prop :=
  σ.AppBypassRls ∨
    a.orgId = σ.appOrgId ∧
      (∃ c ∈ readConversations σ db, c.id = a.conversationId ∧
        (σ.appEndUserId = "" ∨ c.endUserId = some σ.appEndUserId)) ∧
      (σ.appEndUserId = "" ∨ a.messageId = none ∨
        ∃ m ∈ readMessages σ db, some m.id = a.messageId ∧ m.internal = false)

instance : DecidablePred (AttachmentPolicy σ db) := fun _ => inferInstanceAs (Decidable (_ ∨ _))

/-- The policy of `kb_documents`. -/
def DocumentPolicy (d : Document) : Prop :=
  σ.AppBypassRls ∨
    d.orgId = σ.appOrgId ∧
      (σ.appEndUserId = "" ∨ "self_service" ∈ d.audiences ∧ σ.InSpaces d.spaceId)

instance : DecidablePred (DocumentPolicy σ) := fun _ => inferInstanceAs (Decidable (_ ∨ _))

/-- The rows of `kb_documents` that the session reads. -/
def readDocuments : Finset Document := db.documents.filter (DocumentPolicy σ)

/-- The policy of `kb_document_chunks`. -/
def DocumentChunkPolicy (k : DocumentChunk) : Prop :=
  σ.AppBypassRls ∨
    k.orgId = σ.appOrgId ∧
      (σ.appEndUserId = "" ∨
        ∃ d ∈ readDocuments σ db, d.id = k.documentId ∧ "self_service" ∈ d.audiences ∧
          σ.InSpaces d.spaceId)

instance : DecidablePred (DocumentChunkPolicy σ db) := fun _ => inferInstanceAs (Decidable (_ ∨ _))

/-- The policy of `kb_document_versions`. -/
def DocumentVersionPolicy (v : DocumentVersion) : Prop :=
  σ.AppBypassRls ∨ v.orgId = σ.appOrgId

instance : DecidablePred (DocumentVersionPolicy σ) := fun _ => inferInstanceAs (Decidable (_ ∨ _))

/-- The session reads the same rows of the eight tables in two states. -/
structure SameReads (db₁ db₂ : Database) : Prop where
  endUsers : db₁.endUsers.filter (EndUserPolicy σ) = db₂.endUsers.filter (EndUserPolicy σ)
  conversations : readConversations σ db₁ = readConversations σ db₂
  messages : readMessages σ db₁ = readMessages σ db₂
  messageTranslations : db₁.messageTranslations.filter (MessageTranslationPolicy σ) =
    db₂.messageTranslations.filter (MessageTranslationPolicy σ)
  attachments : db₁.attachments.filter (AttachmentPolicy σ db₁) =
    db₂.attachments.filter (AttachmentPolicy σ db₂)
  documents : readDocuments σ db₁ = readDocuments σ db₂
  documentChunks : db₁.documentChunks.filter (DocumentChunkPolicy σ db₁) =
    db₂.documentChunks.filter (DocumentChunkPolicy σ db₂)
  documentVersions : db₁.documentVersions.filter (DocumentVersionPolicy σ) =
    db₂.documentVersions.filter (DocumentVersionPolicy σ)

/-! ### What the end user must not see -/

/-- A row of another organisation. -/
def HiddenEndUser (u : EndUser) : Prop := u.orgId ≠ σ.appOrgId

instance : DecidablePred (HiddenEndUser σ) := fun _ => inferInstanceAs (Decidable (_ ≠ _))

/-- A conversation of another organisation, or not of the end user. -/
def HiddenConversation (c : Conversation) : Prop :=
  c.orgId ≠ σ.appOrgId ∨ c.endUserId ≠ some σ.appEndUserId

instance : DecidablePred (HiddenConversation σ) := fun _ => inferInstanceAs (Decidable (_ ∨ _))

/-- A message of another organisation, an internal one, or one of a hidden conversation. -/
def HiddenMessage (m : Message) : Prop :=
  m.orgId ≠ σ.appOrgId ∨ m.internal = true ∨
    ∃ c ∈ db.conversations, c.id = m.conversationId ∧ HiddenConversation σ c

instance : DecidablePred (HiddenMessage σ db) := fun _ => inferInstanceAs (Decidable (_ ∨ _))

/-- A translation of another organisation, or of something hidden. -/
def HiddenMessageTranslation (t : MessageTranslation) : Prop :=
  t.orgId ≠ σ.appOrgId ∨
    (∃ c ∈ db.conversations, c.id = t.conversationId ∧ HiddenConversation σ c) ∨
    ∃ m ∈ db.messages, m.id = t.messageId ∧ HiddenMessage σ db m

instance : DecidablePred (HiddenMessageTranslation σ db) := fun _ =>
  inferInstanceAs (Decidable (_ ∨ _))

/-- An attachment of another organisation, or of something hidden. -/
def HiddenAttachment (a : Attachment) : Prop :=
  a.orgId ≠ σ.appOrgId ∨
    (∃ c ∈ db.conversations, c.id = a.conversationId ∧ HiddenConversation σ c) ∨
    ∃ m ∈ db.messages, some m.id = a.messageId ∧ HiddenMessage σ db m

instance : DecidablePred (HiddenAttachment σ db) := fun _ => inferInstanceAs (Decidable (_ ∨ _))

/-- A document of another organisation, not for self-service, or outside the session's spaces. -/
def HiddenDocument (d : Document) : Prop :=
  d.orgId ≠ σ.appOrgId ∨ "self_service" ∉ d.audiences ∨ ¬ σ.InSpaces d.spaceId

instance : DecidablePred (HiddenDocument σ) := fun _ => inferInstanceAs (Decidable (_ ∨ _))

/-- A chunk of another organisation, or of a hidden document. -/
def HiddenDocumentChunk (k : DocumentChunk) : Prop :=
  k.orgId ≠ σ.appOrgId ∨ ∃ d ∈ db.documents, d.id = k.documentId ∧ HiddenDocument σ d

instance : DecidablePred (HiddenDocumentChunk σ db) := fun _ => inferInstanceAs (Decidable (_ ∨ _))

/-- A version of another organisation, or of a hidden document. -/
def HiddenDocumentVersion (v : DocumentVersion) : Prop :=
  v.orgId ≠ σ.appOrgId ∨ ∃ d ∈ db.documents, d.id = v.documentId ∧ HiddenDocument σ d

instance : DecidablePred (HiddenDocumentVersion σ db) := fun _ =>
  inferInstanceAs (Decidable (_ ∨ _))

/-- The two states differ only in hidden rows. -/
structure DifferInHidden (db₁ db₂ : Database) : Prop where
  endUsers : AgreeOutside db₁.endUsers (HiddenEndUser σ) db₂.endUsers (HiddenEndUser σ)
  conversations : AgreeOutside db₁.conversations (HiddenConversation σ) db₂.conversations
    (HiddenConversation σ)
  messages : AgreeOutside db₁.messages (HiddenMessage σ db₁) db₂.messages (HiddenMessage σ db₂)
  messageTranslations : AgreeOutside db₁.messageTranslations (HiddenMessageTranslation σ db₁)
    db₂.messageTranslations (HiddenMessageTranslation σ db₂)
  attachments : AgreeOutside db₁.attachments (HiddenAttachment σ db₁) db₂.attachments
    (HiddenAttachment σ db₂)
  documents : AgreeOutside db₁.documents (HiddenDocument σ) db₂.documents (HiddenDocument σ)
  documentChunks : AgreeOutside db₁.documentChunks (HiddenDocumentChunk σ db₁) db₂.documentChunks
    (HiddenDocumentChunk σ db₂)
  documentVersions : AgreeOutside db₁.documentVersions (HiddenDocumentVersion σ db₁)
    db₂.documentVersions (HiddenDocumentVersion σ db₂)

/-- The organisation's versions of documents that the end user must not see. -/
def hiddenVersions : Finset DocumentVersion :=
  db.documentVersions.filter fun v => v.orgId = σ.appOrgId ∧ HiddenDocumentVersion σ db v

end Policies

/-! ### What is read is not hidden -/

/-- A session of an end user: the policies are not bypassed. -/
structure Session.Delegated (σ : Session) : Prop where
  bypassRls : ¬ σ.AppBypassRls
  endUserId : σ.appEndUserId ≠ ""

section Delegated

variable {σ : Session} {db db₁ db₂ : Database} (hσ : σ.Delegated)

include hσ

theorem conversationPolicy_iff (c : Conversation) :
    ConversationPolicy σ c ↔ ¬ HiddenConversation σ c := by
  unfold ConversationPolicy HiddenConversation
  rw [or_iff_right hσ.bypassRls, or_iff_right hσ.endUserId, not_or, not_not, not_not]

theorem mem_readConversations {c : Conversation} :
    c ∈ readConversations σ db ↔ c ∈ db.conversations ∧ ¬ HiddenConversation σ c := by
  rw [readConversations, Finset.mem_filter, conversationPolicy_iff hσ]

/-- A row that refers to a conversation that is read refers to no hidden one. -/
theorem not_refers_hidden {conversationId : String}
    (h : ∃ c ∈ readConversations σ db, c.id = conversationId ∧
      (σ.appEndUserId = "" ∨ c.endUserId = some σ.appEndUserId)) :
    ¬ ∃ c ∈ db.conversations, c.id = conversationId ∧ HiddenConversation σ c := by
  rintro ⟨c', hc', hid', hhidden⟩
  obtain ⟨c, hc, hid, -⟩ := h
  obtain ⟨hmem, hshown⟩ := (mem_readConversations hσ).1 hc
  obtain rfl : c = c' := db.conversationKey hmem hc' (hid.trans hid'.symm)
  exact hshown hhidden

theorem MessagePolicy.not_hidden {m : Message} (h : MessagePolicy σ db m) :
    ¬ HiddenMessage σ db m := by
  obtain ⟨horg, hconversation, hinternal⟩ := h.resolve_left hσ.bypassRls
  rintro (hother | hnote | hrefers)
  · exact hother horg
  · exact absurd (hnote.symm.trans (hinternal.resolve_left hσ.endUserId)) (by decide)
  · exact not_refers_hidden hσ hconversation hrefers

theorem AttachmentPolicy.not_hidden {a : Attachment} (h : AttachmentPolicy σ db a) :
    ¬ HiddenAttachment σ db a := by
  obtain ⟨horg, hconversation, hmessage⟩ := h.resolve_left hσ.bypassRls
  rintro (hother | hrefers | ⟨m', hm', hid', hhidden⟩)
  · exact hother horg
  · exact not_refers_hidden hσ hconversation hrefers
  · rcases hmessage.resolve_left hσ.endUserId with hnone | ⟨m, hm, hid, -⟩
    · exact absurd (hid'.trans hnone) (Option.some_ne_none m'.id)
    · obtain ⟨hmem, hpolicy⟩ := Finset.mem_filter.1 hm
      obtain rfl : m = m' := db.messageKey hmem hm' (Option.some.inj (hid.trans hid'.symm))
      exact hpolicy.not_hidden hσ hhidden

theorem documentPolicy_iff (d : Document) :
    DocumentPolicy σ d ↔ ¬ HiddenDocument σ d := by
  unfold DocumentPolicy HiddenDocument
  rw [or_iff_right hσ.bypassRls, or_iff_right hσ.endUserId, not_or, not_or, not_not, not_not,
    not_not]

theorem DocumentChunkPolicy.not_hidden {k : DocumentChunk}
    (h : DocumentChunkPolicy σ db k) : ¬ HiddenDocumentChunk σ db k := by
  obtain ⟨horg, hdocument⟩ := h.resolve_left hσ.bypassRls
  rintro (hother | ⟨d', hd', hid', hhidden⟩)
  · exact hother horg
  · obtain ⟨d, hd, hid, -⟩ := hdocument.resolve_left hσ.endUserId
    obtain ⟨hmem, hpolicy⟩ := Finset.mem_filter.1 hd
    obtain rfl : d = d' := db.documentKey hmem hd' (hid.trans hid'.symm)
    exact (documentPolicy_iff hσ d).1 hpolicy hhidden

/-! ### Reads of two states -/

/-- No translation is read at all. -/
theorem readMessageTranslations_eq (db₁ db₂ : Database) :
    db₁.messageTranslations.filter (MessageTranslationPolicy σ) =
      db₂.messageTranslations.filter (MessageTranslationPolicy σ) := by
  have hnone : ∀ t, ¬ MessageTranslationPolicy σ t := fun t ht =>
    hσ.endUserId (ht.resolve_left hσ.bypassRls).2
  rw [Finset.filter_false_of_mem fun t _ => hnone t, Finset.filter_false_of_mem fun t _ => hnone t]

variable (h : DifferInHidden σ db₁ db₂)

include h

theorem readEndUsers_eq :
    db₁.endUsers.filter (EndUserPolicy σ) = db₂.endUsers.filter (EndUserPolicy σ) := by
  have hshown : ∀ u, EndUserPolicy σ u → ¬ HiddenEndUser σ u := fun u hu =>
    not_not.2 (hu.resolve_left hσ.bypassRls).1
  exact h.endUsers.filter_eq (fun u _ => hshown u) (fun u _ => hshown u) fun _ _ _ => Iff.rfl

theorem readConversations_eq :
    readConversations σ db₁ = readConversations σ db₂ :=
  h.conversations.filter_eq (fun c _ => (conversationPolicy_iff hσ c).1)
    (fun c _ => (conversationPolicy_iff hσ c).1) fun _ _ _ => Iff.rfl

theorem readMessages_eq :
    readMessages σ db₁ = readMessages σ db₂ := by
  refine h.messages.filter_eq (fun m _ hm => hm.not_hidden hσ) (fun m _ hm => hm.not_hidden hσ) ?_
  intro m _ _
  rw [MessagePolicy, MessagePolicy, readConversations_eq hσ h]

theorem readAttachments_eq :
    db₁.attachments.filter (AttachmentPolicy σ db₁) =
      db₂.attachments.filter (AttachmentPolicy σ db₂) := by
  refine h.attachments.filter_eq (fun a _ ha => ha.not_hidden hσ)
    (fun a _ ha => ha.not_hidden hσ) ?_
  intro a _ _
  rw [AttachmentPolicy, AttachmentPolicy, readConversations_eq hσ h, readMessages_eq hσ h]

theorem readDocuments_eq :
    readDocuments σ db₁ = readDocuments σ db₂ :=
  h.documents.filter_eq (fun d _ => (documentPolicy_iff hσ d).1)
    (fun d _ => (documentPolicy_iff hσ d).1) fun _ _ _ => Iff.rfl

theorem readDocumentChunks_eq :
    db₁.documentChunks.filter (DocumentChunkPolicy σ db₁) =
      db₂.documentChunks.filter (DocumentChunkPolicy σ db₂) := by
  refine h.documentChunks.filter_eq (fun k _ hk => hk.not_hidden hσ)
    (fun k _ hk => hk.not_hidden hσ) ?_
  intro k _ _
  rw [DocumentChunkPolicy, DocumentChunkPolicy, readDocuments_eq hσ h]

/-- Versions of hidden documents are read like all others of the organisation. -/
theorem readDocumentVersions_eq_iff :
    db₁.documentVersions.filter (DocumentVersionPolicy σ) =
        db₂.documentVersions.filter (DocumentVersionPolicy σ) ↔
      hiddenVersions σ db₁ = hiddenVersions σ db₂ := by
  have hpolicy : ∀ v, DocumentVersionPolicy σ v ↔ v.orgId = σ.appOrgId := fun v =>
    or_iff_right hσ.bypassRls
  simp only [hpolicy]
  exact h.documentVersions.filter_eq_iff fun v => v.orgId = σ.appOrgId

end Delegated

/-- **Isolation, exactly**: in two states that differ only in what the end user must not see, the
session reads the same if and only if the versions of hidden documents are the same. -/
theorem sameReads_iff {σ : Session} {db₁ db₂ : Database} (hσ : σ.Delegated)
    (h : DifferInHidden σ db₁ db₂) :
    SameReads σ db₁ db₂ ↔ hiddenVersions σ db₁ = hiddenVersions σ db₂ := by
  constructor
  · intro hsame
    exact (readDocumentVersions_eq_iff hσ h).1 hsame.documentVersions
  · intro hversions
    exact {
      endUsers := readEndUsers_eq hσ h
      conversations := readConversations_eq hσ h
      messages := readMessages_eq hσ h
      messageTranslations := readMessageTranslations_eq hσ db₁ db₂
      attachments := readAttachments_eq hσ h
      documents := readDocuments_eq hσ h
      documentChunks := readDocumentChunks_eq hσ h
      documentVersions := (readDocumentVersions_eq_iff hσ h).2 hversions }

/-! ### Two states -/

/-- The session of an end user whose channel is bound to one space. -/
def visitor : Session where
  orgId := some "org_1"
  endUserId := some "eu_1"
  bypassRls := some "off"
  kbSpaceIds := some "kbs_1"

theorem visitor_delegated : visitor.Delegated where
  bypassRls := by decide
  endUserId := by decide

/-- The visitor's conversation beside another one, and a document for administrators with a
version. -/
def archived (body version : String) : Database where
  conversations := {⟨"ccv_1", "org_1", some "eu_1", ""⟩, ⟨"ccv_2", "org_1", some "eu_2", body⟩}
  documents := {⟨"kdoc_1", "org_1", "kbs_1", ["admin"], body⟩}
  documentVersions := {⟨"kver_1", "org_1", "kdoc_1", version⟩}
  conversationKey := by
    intro c hc c' hc' hid
    simp only [Finset.coe_insert, Finset.coe_singleton, Set.mem_insert_iff,
      Set.mem_singleton_iff] at hc hc'
    rcases hc with rfl | rfl <;> rcases hc' with rfl | rfl <;> simp_all
  messageKey := by simp
  documentKey := by simp

/-- The other conversation and the document are rewritten. -/
theorem sameReads_sample :
    DifferInHidden visitor (archived "before" "v1") (archived "after" "v1") ∧
      SameReads visitor (archived "before" "v1") (archived "after" "v1") := by
  have hdiffer : DifferInHidden visitor (archived "before" "v1") (archived "after" "v1") :=
    ⟨by decide +kernel, by decide +kernel, by decide +kernel, by decide +kernel,
      by decide +kernel, by decide +kernel, by decide +kernel, by decide +kernel⟩
  exact ⟨hdiffer, (sameReads_iff visitor_delegated hdiffer).2 (by decide +kernel)⟩

/-- **Versions leak**: the session of an end user reads the version of a document for
administrators. -/
theorem versions_leak :
    visitor.Delegated ∧
      DifferInHidden visitor (archived "draft" "secret") (archived "draft" "other") ∧
      ¬ SameReads visitor (archived "draft" "secret") (archived "draft" "other") := by
  refine ⟨visitor_delegated, ⟨by decide +kernel, by decide +kernel, by decide +kernel,
    by decide +kernel, by decide +kernel, by decide +kernel, by decide +kernel,
    by decide +kernel⟩, ?_⟩
  intro hsame
  exact absurd hsame.documentVersions (by decide +kernel)

end Rls

end Munin
