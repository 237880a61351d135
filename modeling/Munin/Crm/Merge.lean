import Munin.Outreach.Proposal

/-!
# Merging contacts

Two contacts that are the same person are merged through a proposal, which names the one to keep and
the columns to take over. Applying it is a transaction of many statements: the keeper is patched,
the rows that refer to the duplicate are moved to the keeper, and the duplicate is archived with a
link to it.

* **`Contact`, `CrmRow`, `MergeProposal`** — the rows, as far as merges read and write them.
* **`ApplyStmt`** — the statements of `applyMergeProposal`, in their order; `ApplyCall.stmt` is what
  each of them updates.
* **`Contact.mergedInto`** — the link of a contact that was merged away; `mergedInto_patchKeeper`
  and `mergedInto_archive` are what the two statements on contacts do to it.
-/

namespace Munin

open Foundations

/-! ### Rows -/

/-- A row of `crm_contacts`. -/
structure Contact where
  id : String
  endUserId : Option String := none
  /-- The other columns, under their names. -/
  columns : Record := []

/-- `mergedIntoId`. -/
def mergedIntoId (customFields : Json) : Option String :=
  match customFields with
  | .obj fields => (Record.text fields "mergedInto").filter (· ≠ "")
  | _ => none

/-- The custom fields of a contact. -/
def Contact.customFields (c : Contact) : Json :=
  (c.columns.lookup "customFields").getD (.obj [])

/-- The contact into which one was merged. -/
def Contact.mergedInto (c : Contact) : Option String :=
  mergedIntoId c.customFields

/-- A row that may refer to contacts: of `crm_activities`, `crm_deals` or `crm_relationships`. -/
inductive CrmRow where
  | activity (id : String) (contactId : Option String)
  | deal (id : String) (primaryContactId : Option String)
  | relationship (id fromType fromId toType toId : String)

/-- The columns that refer to contacts. -/
inductive ContactRef where
  | activity
  | deal
  | fromEnd
  | toEnd
  deriving DecidableEq

/-- The contact that a row refers to in a column. -/
def CrmRow.contact : ContactRef → CrmRow → Option String
  | .activity, .activity _ contactId => contactId
  | .deal, .deal _ primaryContactId => primaryContactId
  | .fromEnd, .relationship _ fromType fromId _ _ => if fromType = "contact" then fromId else none
  | .toEnd, .relationship _ _ _ toType toId => if toType = "contact" then toId else none
  | _, _ => none

/-- A row with another contact in a column. -/
def CrmRow.setContact : ContactRef → String → CrmRow → CrmRow
  | .activity, k, .activity id _ => .activity id k
  | .deal, k, .deal id _ => .deal id k
  | .fromEnd, k, .relationship id fromType _ toType toId =>
    .relationship id fromType k toType toId
  | .toEnd, k, .relationship id fromType fromId toType _ =>
    .relationship id fromType fromId toType k
  | _, _, row => row

variable {ref : ContactRef}

/-- A column that referred to a contact refers to the new one. -/
theorem contact_setContact_self {k x : String} {row : CrmRow}
    (h : row.contact ref = some x) : (row.setContact ref k).contact ref = some k := by
  cases ref <;> cases row <;> simp only [CrmRow.contact] at h
  · rfl
  · cases h
  · cases h
  · cases h
  · rfl
  · cases h
  · cases h
  · cases h
  · split at h
    · rename_i htype
      simp [CrmRow.setContact, CrmRow.contact, htype]
    · cases h
  · cases h
  · cases h
  · split at h
    · rename_i htype
      simp [CrmRow.setContact, CrmRow.contact, htype]
    · cases h

/-- The other columns stay. -/
theorem contact_setContact_of_ne {other : ContactRef} (hne : other ≠ ref) (k : String)
    (row : CrmRow) : (row.setContact ref k).contact other = row.contact other := by
  cases ref <;> cases other <;> cases row <;> first | rfl | exact absurd rfl hne

inductive MergeStatus where
  | pending
  | applied
  | dismissed
  deriving DecidableEq

/-- A row of `crm_merge_proposals`. -/
structure MergeProposal where
  id : String
  contactAId : String
  contactBId : String
  confidence : String
  evidence : Record := []
  recommendedKeeperId : String
  recommendedPatch : Record := []
  status : MergeStatus := .pending
  dismissReason : Option String := none

/-- The contact of a proposal that is not kept. -/
def MergeProposal.duplicateId (p : MergeProposal) : String :=
  if p.recommendedKeeperId = p.contactAId then p.contactBId else p.contactAId

/-- The contact is one of the two. -/
def MergeProposal.Involves (p : MergeProposal) (id : String) : Prop :=
  p.contactAId = id ∨ p.contactBId = id

instance (p : MergeProposal) (id : String) : Decidable (p.Involves id) :=
  inferInstanceAs (Decidable (_ ∨ _))

/-- The key of the index `crm_merge_proposals_pending_pair_uq`. -/
def MergeProposal.pendingPair (p : MergeProposal) : Option (String × String) :=
  if p.status = .pending then some (p.contactAId, p.contactBId) else none

/-- `canonicalizePair`. -/
def canonicalizePair (a b : String) : String × String :=
  if a < b then (a, b) else (b, a)

/-- A row of `outreach_proposals`, as far as merges read and write it. -/
structure OutreachRow where
  id : String
  contactId : String
  campaignId : String
  status : ProposalStatus
  scheduledSendAt : Option String := none
  dismissReason : Option String := none

/-! ### The patch -/

def MERGE_PATCH_TIMESTAMP_FIELDS : List String :=
  ["consentGivenAt", "lastContactedAt", "unsubscribedAt", "aiSummaryAt", "lastAiTouchAt"]

def MERGE_PATCH_ALLOWED_FIELDS : List String :=
  ["name", "email", "phone", "title", "address", "companyId", "ownerUserId", "tags",
    "customFields", "aiSummary", "aiNextAction", "engagementScore", "doNotContact",
    "consentLawfulBasis", "consentSource", "consentEvidence"] ++ MERGE_PATCH_TIMESTAMP_FIELDS

/-- `normalizeMergePatch`; `parseDate` is `new Date(v)`, with `none` for an invalid date. -/
def normalizeMergePatch (parseDate : Json → Option Json) (patch : Record) : Record :=
  patch.filterMap fun (k, v) =>
    if k ∉ MERGE_PATCH_ALLOWED_FIELDS then none
    else if k ∈ MERGE_PATCH_TIMESTAMP_FIELDS then
      match v with
      | .null => some (k, .null)
      | v => (parseDate v).map fun d => (k, d)
    else some (k, v)

/-! ### Applying a proposal -/

/-- What stands outside the database: the digest of a proposal, the parsing of dates, and the time,
as it is written. -/
structure MergeEnv where
  mergeFingerprint : MergeProposal → String
  parseDate : Json → Option Json
  mergedAt : String
  archiveMonth : String

/-- `{ ...value }`: the fields of an object, and of arrays and texts their elements. -/
def spreadFields : Json → Record
  | .obj fields => fields
  | .arr items => items.zipIdx.map fun (x, i) => (toString i, x)
  | .str s => s.toList.zipIdx.map fun (c, i) => (toString i, .str (.ofList [c]))
  | .null | .bool _ | .num _ => []

/-- The tags with one more; what is no list has no `includes`, a text aside. -/
def withTag (tag : String) (tags : Json) : Option Json :=
  match tags with
  | .arr items =>
    some (.arr (if items.any fun x => match x with | .str s => s = tag | _ => false then items
      else items ++ [.str tag]))
  | .str s =>
    if s.toList.tails.any tag.toList.isPrefixOf then some tags
    else some (.arr ((s.toList.map fun c => Json.str (.ofList [c])) ++ [.str tag]))
  | .null | .bool _ | .num _ | .obj _ => none

/-- What `applyMergeProposal` has read before it writes. -/
structure ApplyCall where
  proposal : MergeProposal
  keeper : Contact
  duplicate : Contact
  env : MergeEnv

namespace ApplyCall

variable (call : ApplyCall)

def keeperId : String := call.proposal.recommendedKeeperId
def duplicateId : String := call.proposal.duplicateId

/-- The columns of `keeperUpdates`, the end user aside. -/
def keeperPatch : Record :=
  normalizeMergePatch call.env.parseDate call.proposal.recommendedPatch

/-- The keeper takes over the end user of the duplicate if it has none. -/
def takesEndUser : Bool :=
  !truthy call.keeper.endUserId && truthy call.duplicate.endUserId

/-- `keeperUpdates`, written to the keeper. -/
def patchKeeper (c : Contact) : Contact where
  id := c.id
  endUserId := if call.takesEndUser then call.duplicate.endUserId else c.endUserId
  columns := c.columns.spread call.keeperPatch

/-- `dupTags`: the tags of the duplicate as they were read, with the archive tag. -/
def dupTags : Option Json :=
  withTag ("dedup-archived-" ++ call.env.archiveMonth)
    ((call.duplicate.columns.lookup "tags").getD (.arr []))

/-- `dupCustomFields`. -/
def dupCustomFields : Record :=
  (spreadFields call.duplicate.customFields).spread
    [("mergedInto", .str call.keeperId), ("mergedAt", .str call.env.mergedAt)]

/-- `dupUpdates`, written to the duplicate. -/
def archive (tags : Json) (c : Contact) : Contact where
  id := c.id
  endUserId := if truthy call.duplicate.endUserId then none else c.endUserId
  columns := c.columns.spread
    [("tags", tags), ("customFields", .obj call.dupCustomFields), ("doNotContact", .bool true)]

/-- `dismissReason`. -/
def dismissReason : String := "contact merged into " ++ call.keeperId

end ApplyCall

/-- The statements of `applyMergeProposal`. -/
inductive ApplyStmt where
  | keeper
  | activities
  | deals
  | fromEnds
  | toEnds
  | outreach
  | duplicate
  | siblings
  | applied
  deriving DecidableEq

/-- The statement that comes next. -/
def ApplyStmt.next : ApplyStmt → Option ApplyStmt
  | .keeper => some .activities
  | .activities => some .deals
  | .deals => some .fromEnds
  | .fromEnds => some .toEnds
  | .toEnds => some .outreach
  | .outreach => some .duplicate
  | .duplicate => some .siblings
  | .siblings => some .applied
  | .applied => none

/-- An `UPDATE` of one of the tables: its condition, and what it writes. -/
inductive MergeUpdate where
  | contacts (p : Contact → Bool) (f : Contact → Contact)
  | rows (p : CrmRow → Bool) (f : CrmRow → CrmRow)
  | outreach (p : OutreachRow → Bool) (f : OutreachRow → OutreachRow)
  | proposals (p : MergeProposal → Bool) (f : MergeProposal → MergeProposal)

namespace ApplyCall

variable (call : ApplyCall)

/-- The rows that refer to the duplicate in a column refer to the keeper. -/
def redirect (ref : ContactRef) : MergeUpdate :=
  .rows (·.contact ref = some call.duplicateId) (·.setContact ref call.keeperId)

/-- The outreach proposals to the duplicate that are dismissed. -/
def dismisses (o : OutreachRow) : Bool :=
  o.contactId = call.duplicateId && o.status = .pending

/-- The other merge proposals that are dismissed. -/
def supersedes (p : MergeProposal) : Bool :=
  p.id ≠ call.proposal.id && p.status = .pending && p.Involves call.duplicateId

/-- What each statement updates; `none` is one that is left out. Before it archives a duplicate
without `dupTags`, the call throws. -/
def stmt : ApplyStmt → Option MergeUpdate
  | .keeper =>
    if call.keeperPatch.isEmpty && !call.takesEndUser then none
    else some (.contacts (·.id = call.keeperId) call.patchKeeper)
  | .activities => some (call.redirect .activity)
  | .deals => some (call.redirect .deal)
  | .fromEnds => some (call.redirect .fromEnd)
  | .toEnds => some (call.redirect .toEnd)
  | .outreach => some (.outreach call.dismisses fun o =>
      { o with status := .dismissed, dismissReason := call.dismissReason })
  | .duplicate => some (.contacts (·.id = call.duplicateId)
      (call.archive (call.dupTags.getD .null)))
  | .siblings => some (.proposals call.supersedes fun p =>
      { p with status := .dismissed, dismissReason := call.dismissReason })
  | .applied => some (.proposals (·.id = call.proposal.id) fun p => { p with status := .applied })

end ApplyCall

/-! ### Links -/

/-- A patch that names no contact to be merged into. -/
def NamesNoLink (patch : Record) : Prop :=
  ∀ f ∈ patch, f.1 = "customFields" → mergedIntoId f.2 = none

/-- **The patch of a keeper** leaves it unmerged, if it names no link itself. -/
theorem mergedInto_patchKeeper {call : ApplyCall} {c : Contact} (hc : c.mergedInto = none)
    (hpatch : NamesNoLink call.proposal.recommendedPatch) :
    (call.patchKeeper c).mergedInto = none := by
  unfold Contact.mergedInto Contact.customFields at hc ⊢
  rcases lookup_spread c.columns call.keeperPatch "customFields" with hold | ⟨f, hf, hkey, hnew⟩
  · change mergedIntoId (((c.columns.spread call.keeperPatch).lookup "customFields").getD
      (.obj [])) = none
    rw [hold]
    exact hc
  · change mergedIntoId (((c.columns.spread call.keeperPatch).lookup "customFields").getD
      (.obj [])) = none
    rw [hnew, Option.getD_some]
    obtain ⟨g, hg, hgf⟩ := List.mem_filterMap.1 hf
    have hallowed : "customFields" ∈ MERGE_PATCH_ALLOWED_FIELDS := by decide
    have htime : "customFields" ∉ MERGE_PATCH_TIMESTAMP_FIELDS := by decide
    have hsame : g = f := by
      obtain ⟨k, v⟩ := g
      dsimp only at hgf
      split at hgf
      · cases hgf
      · split at hgf
        · rename_i hk
          have hfk : f.1 = k := by
            split at hgf
            · exact congrArg Prod.fst (Option.some.inj hgf).symm
            · obtain ⟨d, -, rfl⟩ := Option.map_eq_some_iff.1 hgf
              rfl
          rw [← hfk, hkey] at hk
          exact absurd hk htime
        · exact Option.some.inj hgf
    exact hsame ▸ hpatch g hg (hsame ▸ hkey)

/-- **The duplicate is archived** with its link to the keeper. -/
theorem mergedInto_archive {call : ApplyCall} (hid : call.keeperId ≠ "") (tags : Json)
    (c : Contact) : (call.archive tags c).mergedInto = some call.keeperId := by
  have hfields : (call.archive tags c).customFields = .obj call.dupCustomFields := by
    unfold Contact.customFields ApplyCall.archive
    simp only [Record.spread, List.foldl_cons, List.foldl_nil]
    rw [lookup_setField_of_ne _ _ (by decide), lookup_setField_self, Option.getD_some]
  have hlink : call.dupCustomFields.lookup "mergedInto" = some (.str call.keeperId) := by
    unfold ApplyCall.dupCustomFields
    simp only [Record.spread, List.foldl_cons, List.foldl_nil]
    rw [lookup_setField_of_ne _ _ (by decide), lookup_setField_self]
  rw [Contact.mergedInto, hfields]
  simp [mergedIntoId, Record.text, hlink, hid]

end Munin
