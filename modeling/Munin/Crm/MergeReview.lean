import Munin.Crm.Merge

/-!
# What a merge does, beside what its review showed

A reviewer reads a merge proposal with its impact, and applies it. Here the two calls run one right
after the other, with nothing in between.

* **`getMergeProposal`, `loadMergeImpact`** — what the reviewer is shown.
* **`applyMergeProposal`** — the statements of the call, each on a whole table.
* **`merge_after_review`** — what the merge dismisses, beside what was shown, and which opt-outs the
  keeper has afterwards.
* **`merge_drops_opt_out`** — that of the duplicate may be lost.
-/

namespace Munin

open Foundations

/-- The tables that a review and a merge read and write. -/
structure MergeTables where
  contacts : List Contact := []
  rows : List CrmRow := []
  outreach : List OutreachRow := []
  proposals : List MergeProposal := []
  /-- The names of campaigns, under their ids. -/
  campaigns : List (String × String) := []

namespace MergeTables

variable (T : MergeTables)

def contact (id : String) : Option Contact := T.contacts.find? (·.id = id)

def proposal (id : String) : Option MergeProposal := T.proposals.find? (·.id = id)

end MergeTables

/-! ### The review -/

structure MergeImpactOutreach where
  id : String
  campaignName : Option String
  scheduledSendAt : Option String

structure MergeImpact where
  duplicateId : String
  pendingOutreach : List MergeImpactOutreach
  supersededProposalCount : ℕ

/-- What is shown of a proposal; of its contacts, the rows that the summaries are taken from. -/
structure MergeReview where
  proposal : MergeProposal
  contactA : Contact
  contactB : Contact
  mergeFingerprint : String
  impact : Option MergeImpact

/-- An outreach proposal of the contact that is listed. -/
def isListed (duplicateId : String) (o : OutreachRow) : Bool :=
  o.contactId = duplicateId && (o.status = .pending || o.status = .approved)

/-- A merge proposal that is counted. -/
def isCounted (p o : MergeProposal) : Bool :=
  o.id ≠ p.id && o.status = .pending && o.Involves p.duplicateId

/-- `loadMergeExtras`, of one proposal. -/
def loadMergeImpact (T : MergeTables) (p : MergeProposal) : MergeImpact where
  duplicateId := p.duplicateId
  pendingOutreach := (T.outreach.filter (isListed p.duplicateId)).map fun o =>
    { id := o.id, campaignName := T.campaigns.lookup o.campaignId
      scheduledSendAt := o.scheduledSendAt }
  supersededProposalCount := (T.proposals.filter (isCounted p)).length

/-- `getMergeProposal`. -/
def getMergeProposal (T : MergeTables) (env : MergeEnv) (id : String) :
    Except String MergeReview :=
  match T.proposal id with
  | none => .error ("crm_not_found: merge proposal " ++ id)
  | some p =>
    match T.contact p.contactAId, T.contact p.contactBId with
    | some a, some b => .ok
        { proposal := p, contactA := a, contactB := b, mergeFingerprint := env.mergeFingerprint p
          impact := some (loadMergeImpact T p) }
    | _, _ => .error ("merge proposal " ++ id ++ " references missing contact")

/-! ### The merge -/

/-- An `UPDATE`: every row that satisfies the condition is written. -/
def updateAll {α : Type*} (p : α → Bool) (f : α → α) (rows : List α) : List α :=
  rows.map fun x => if p x then f x else x

/-- A statement on the tables. -/
def MergeUpdate.run (T : MergeTables) : MergeUpdate → MergeTables
  | .contacts p f => { T with contacts := updateAll p f T.contacts }
  | .rows p f => { T with rows := updateAll p f T.rows }
  | .outreach p f => { T with outreach := updateAll p f T.outreach }
  | .proposals p f => { T with proposals := updateAll p f T.proposals }

def MergeStatus.text : MergeStatus → String
  | .pending => "pending"
  | .applied => "applied"
  | .dismissed => "dismissed"

/-- The statements of `applyMergeProposal`, in their order. -/
def ApplyStmt.all : List ApplyStmt :=
  [.keeper, .activities, .deals, .fromEnds, .toEnds, .outreach, .duplicate, .siblings, .applied]

/-- The tables after the statements of a call. -/
def ApplyCall.run (call : ApplyCall) (T : MergeTables) (stmts : List ApplyStmt) : MergeTables :=
  (stmts.filterMap call.stmt).foldl MergeUpdate.run T

/-- `applyMergeProposal`. -/
def applyMergeProposal (T : MergeTables) (env : MergeEnv) (id fingerprint : String) :
    Except String MergeTables :=
  match T.proposal id with
  | none => .error ("crm_not_found: merge proposal " ++ id)
  | some p =>
    if p.status ≠ .pending then
      .error ("merge proposal " ++ id ++ " is " ++ p.status.text ++ ", not pending")
    else if env.mergeFingerprint p ≠ fingerprint then
      .error ("crm_conflict: merge proposal " ++ id ++
        " changed after the version being applied was read — nothing was merged and it stays " ++
        "pending; re-read the current proposal and apply that")
    else
      match T.contact p.recommendedKeeperId, T.contact p.duplicateId with
      | some keeper, some duplicate =>
        let call : ApplyCall := ⟨p, keeper, duplicate, env⟩
        if call.dupTags.isNone then .error "duplicateRow.tags.includes is not a function"
        else .ok (call.run T ApplyStmt.all)
      | _, _ => .error ("merge proposal " ++ id ++ " references missing contact")

/-! ### What is compared -/

/-- The outreach proposals that were dismissed between two states. -/
def dismissedOutreach (T T' : MergeTables) : List String :=
  (T.outreach.zip T'.outreach).filterMap fun (o, o') =>
    if o.status ≠ .dismissed ∧ o'.status = .dismissed then some o.id else none

/-- The merge proposals that were dismissed between two states. -/
def dismissedProposals (T T' : MergeTables) : List String :=
  (T.proposals.zip T'.proposals).filterMap fun (p, p') =>
    if p.status ≠ .dismissed ∧ p'.status = .dismissed then some p.id else none

/-- The contact is not to be contacted, or unsubscribed. -/
def Contact.OptedOut (c : Contact) : Prop :=
  c.columns.lookup "doNotContact" = some (.bool true) ∨
    ∃ v, c.columns.lookup "unsubscribedAt" = some v ∧ v ≠ .null

/-- A patch that says itself whether the keeper may be contacted. -/
def SetsOptOut (patch : Record) : Prop :=
  ∃ f ∈ patch, f.1 = "doNotContact" ∨ f.1 = "unsubscribedAt"

/-! ### What the statements do -/

section Run

variable {T T' : MergeTables} {env : MergeEnv} {id fingerprint : String}

theorem getMergeProposal_eq_ok {review : MergeReview} (h : getMergeProposal T env id = .ok review) :
    T.proposal id = some review.proposal ∧
      review.impact = some (loadMergeImpact T review.proposal) := by
  unfold getMergeProposal at h
  split at h
  · cases h
  · rename_i p hp
    split at h
    · cases h
      exact ⟨hp, rfl⟩
    · cases h

theorem applyMergeProposal_eq_ok (h : applyMergeProposal T env id fingerprint = .ok T') :
    ∃ call : ApplyCall, T.proposal id = some call.proposal ∧ call.env = env ∧
      T' = call.run T ApplyStmt.all := by
  unfold applyMergeProposal at h
  split at h
  · cases h
  · rename_i p hp
    split at h
    · cases h
    · split at h
      · cases h
      · split at h
        · rename_i keeper duplicate hkeeper hduplicate
          dsimp only at h
          split at h
          · cases h
          · cases h
            exact ⟨⟨p, keeper, duplicate, env⟩, hp, rfl, rfl⟩
        · cases h

/-- A patch of nothing changes nothing. -/
theorem patchKeeper_eq_self {call : ApplyCall}
    (h : (call.keeperPatch.isEmpty && !call.takesEndUser) = true) (c : Contact) :
    call.patchKeeper c = c := by
  rw [Bool.and_eq_true, List.isEmpty_iff, Bool.not_eq_true'] at h
  obtain ⟨id, endUserId, columns⟩ := c
  simp [ApplyCall.patchKeeper, h.1, h.2, Record.spread]

theorem updateAll_eq_self {α : Type*} {p : α → Bool} {f : α → α} (hf : ∀ x, f x = x)
    (rows : List α) : updateAll p f rows = rows := by
  unfold updateAll
  rw [List.map_congr_left (g := id) fun x _ => ?_, List.map_id]
  split
  · exact hf x
  · rfl

/-- The keeper's statement is one on contacts, also where it is left out. -/
theorem run_keeper (call : ApplyCall) (T : MergeTables) :
    call.run T ApplyStmt.all = call.run
      { T with contacts := updateAll (·.id = call.keeperId) call.patchKeeper T.contacts }
      [.activities, .deals, .fromEnds, .toEnds, .outreach, .duplicate, .siblings, .applied] := by
  by_cases hk : (call.keeperPatch.isEmpty && !call.takesEndUser) = true
  · rw [updateAll_eq_self (patchKeeper_eq_self hk)]
    simp only [ApplyCall.run, ApplyStmt.all, List.filterMap_cons, ApplyCall.stmt, if_pos hk]
  · simp only [ApplyCall.run, ApplyStmt.all, List.filterMap_cons, ApplyCall.stmt, if_neg hk,
      List.foldl_cons, MergeUpdate.run]

theorem run_outreach (call : ApplyCall) (T : MergeTables) :
    (call.run T ApplyStmt.all).outreach = updateAll call.dismisses
      (fun o => { o with status := .dismissed, dismissReason := call.dismissReason })
      T.outreach := by
  rw [run_keeper]
  rfl

theorem run_proposals (call : ApplyCall) (T : MergeTables) :
    (call.run T ApplyStmt.all).proposals =
      updateAll (·.id = call.proposal.id) (fun p => { p with status := .applied })
        (updateAll call.supersedes
          (fun p => { p with status := .dismissed, dismissReason := call.dismissReason })
          T.proposals) := by
  rw [run_keeper]
  rfl

theorem run_contacts (call : ApplyCall) (T : MergeTables) :
    (call.run T ApplyStmt.all).contacts =
      updateAll (·.id = call.duplicateId) (call.archive (call.dupTags.getD .null))
        (updateAll (·.id = call.keeperId) call.patchKeeper T.contacts) := by
  rw [run_keeper]
  rfl

end Run

/-! ### What was shown, and what is done -/

section Compare

variable {T T' : MergeTables} {call : ApplyCall}

/-- An outreach proposal is dismissed by the merge exactly if it is one of the duplicate's that are
pending. -/
theorem mem_dismissedOutreach {o : String} :
    o ∈ dismissedOutreach T (call.run T ApplyStmt.all) ↔
      ∃ row ∈ T.outreach, call.dismisses row = true ∧ row.id = o := by
  unfold dismissedOutreach
  rw [run_outreach, updateAll, List.zip_eq_zipWith, List.zipWith_map_right, List.zipWith_self,
    List.filterMap_map, List.mem_filterMap]
  refine exists_congr fun row => and_congr_right fun _ => ?_
  by_cases hrow : call.dismisses row = true
  · have hpending : row.status = .pending := by
      unfold ApplyCall.dismisses at hrow
      simp only [Bool.and_eq_true, decide_eq_true_iff] at hrow
      exact hrow.2
    simp [hrow, hpending]
  · simp [hrow]

/-- The merge proposals that a merge dismisses are those that were counted. -/
theorem dismissedProposals_run :
    dismissedProposals T (call.run T ApplyStmt.all) =
      (T.proposals.filter (isCounted call.proposal)).map (·.id) := by
  unfold dismissedProposals
  rw [run_proposals, updateAll, updateAll, List.map_map, List.zip_eq_zipWith,
    List.zipWith_map_right, List.zipWith_self, List.filterMap_map, ← List.filterMap_eq_map,
    List.filterMap_filter]
  refine List.filterMap_congr fun p _ => ?_
  rw [show isCounted call.proposal p = call.supersedes p from rfl]
  by_cases hp : call.supersedes p = true
  · have hcounted := hp
    simp only [ApplyCall.supersedes, Bool.and_eq_true, decide_eq_true_iff] at hcounted
    obtain ⟨⟨hid, hpending⟩, -⟩ := hcounted
    simp [hp, hid, hpending]
  · by_cases hid : p.id = call.proposal.id
    · simp [hp, hid]
    · simp [hp, hid]

/-- A patch that says nothing about it leaves an opt-out. -/
theorem optedOut_patchKeeper {c : Contact} (hc : c.OptedOut)
    (hpatch : ¬ SetsOptOut call.proposal.recommendedPatch) : (call.patchKeeper c).OptedOut := by
  have hkeep : ∀ key, key = "doNotContact" ∨ key = "unsubscribedAt" →
      (call.patchKeeper c).columns.lookup key = c.columns.lookup key := by
    intro key hkey
    refine (lookup_spread c.columns call.keeperPatch key).resolve_right ?_
    rintro ⟨f, hf, hfkey, -⟩
    obtain ⟨⟨k, v⟩, hg, hgf⟩ := List.mem_filterMap.1 hf
    have hk : f.1 = k := by
      dsimp only at hgf
      split at hgf
      · cases hgf
      · split at hgf
        · split at hgf
          · exact congrArg Prod.fst (Option.some.inj hgf).symm
          · obtain ⟨d, -, rfl⟩ := Option.map_eq_some_iff.1 hgf
            rfl
        · exact congrArg Prod.fst (Option.some.inj hgf).symm
    refine hpatch ⟨(k, v), hg, ?_⟩
    rwa [← hfkey, hk] at hkey
  rcases hc with hdnc | ⟨v, hv, hne⟩
  · exact .inl ((hkeep _ (.inl rfl)).trans hdnc)
  · exact .inr ⟨v, (hkeep _ (.inr rfl)).trans hv, hne⟩

/-- An archived contact is not to be contacted. -/
theorem optedOut_archive (call : ApplyCall) (tags : Json) (c : Contact) :
    (call.archive tags c).OptedOut := by
  refine .inl ?_
  unfold ApplyCall.archive
  simp only [Record.spread, List.foldl_cons, List.foldl_nil]
  exact lookup_setField_self _ _ _

theorem contact_updateAll {contacts : List Contact} {p : Contact → Bool} {f : Contact → Contact}
    (hf : ∀ c, (f c).id = c.id) (id : String) :
    (updateAll p f contacts).find? (·.id = id) =
      (contacts.find? (·.id = id)).map fun c => if p c then f c else c := by
  unfold updateAll
  rw [List.find?_map]
  congr 2
  funext c
  rw [Function.comp_apply]
  split
  · rw [hf]
  · rfl

/-- The keeper's opt-out outlives the merge. -/
theorem optedOut_keeper {c c' : Contact} (hc : T.contact call.keeperId = some c)
    (hc' : (call.run T ApplyStmt.all).contact call.keeperId = some c')
    (hpatch : ¬ SetsOptOut call.proposal.recommendedPatch) (hout : c.OptedOut) : c'.OptedOut := by
  have harchive : ∀ x, (call.archive (call.dupTags.getD .null) x).id = x.id := fun _ => rfl
  have hpatchId : ∀ x, (call.patchKeeper x).id = x.id := fun _ => rfl
  unfold MergeTables.contact at hc
  rw [MergeTables.contact, run_contacts, contact_updateAll harchive, contact_updateAll hpatchId,
    hc, Option.map_some, Option.map_some, Option.some.injEq] at hc'
  have hid : c.id = call.keeperId := by simpa using List.find?_some hc
  rw [if_pos (decide_eq_true hid)] at hc'
  subst hc'
  split
  · exact optedOut_archive call _ _
  · exact optedOut_patchKeeper hout hpatch

end Compare

/-- **A merge right after its review**: it dismisses outreach proposals that were listed, and of
those all that are pending; it dismisses as many other merge proposals as were counted; and a keeper
that had opted out has so afterwards, unless the patch sets that itself. -/
theorem merge_after_review {T T' : MergeTables} {env : MergeEnv} {id fingerprint : String}
    {review : MergeReview} {impact : MergeImpact} (hreview : getMergeProposal T env id = .ok review)
    (himpact : review.impact = some impact)
    (happly : applyMergeProposal T env id fingerprint = .ok T') :
    (∀ o ∈ dismissedOutreach T T', o ∈ impact.pendingOutreach.map (·.id)) ∧
      (∀ row ∈ T.outreach, isListed impact.duplicateId row = true → row.status = .pending →
        row.id ∈ dismissedOutreach T T') ∧
      (dismissedProposals T T').length = impact.supersededProposalCount ∧
      (¬ SetsOptOut review.proposal.recommendedPatch → ∀ c c',
        T.contact review.proposal.recommendedKeeperId = some c →
        T'.contact review.proposal.recommendedKeeperId = some c' → c.OptedOut → c'.OptedOut) := by
  obtain ⟨hp, hload⟩ := getMergeProposal_eq_ok hreview
  obtain ⟨call, hcall, -, rfl⟩ := applyMergeProposal_eq_ok happly
  have hsame : review.proposal = call.proposal := Option.some.inj (hp.symm.trans hcall)
  rw [hload, Option.some.injEq] at himpact
  rw [← himpact, hsame]
  refine ⟨fun o ho => ?_, fun row hrow hlisted hpending => ?_, ?_, fun hpatch c c' hc hc' =>
    optedOut_keeper hc hc' hpatch⟩
  · obtain ⟨row, hrow, hdismiss, rfl⟩ := mem_dismissedOutreach.1 ho
    simp only [ApplyCall.dismisses, Bool.and_eq_true, decide_eq_true_iff] at hdismiss
    have hlisted : isListed call.proposal.duplicateId row = true := by
      simp [isListed, hdismiss.2, show row.contactId = call.proposal.duplicateId from hdismiss.1]
    simp only [loadMergeImpact, List.map_map, List.mem_map, List.mem_filter]
    exact ⟨row, ⟨hrow, hlisted⟩, rfl⟩
  · refine mem_dismissedOutreach.2 ⟨row, hrow, ?_, rfl⟩
    have hcontact : row.contactId = call.duplicateId := by
      simp only [isListed, Bool.and_eq_true, decide_eq_true_iff] at hlisted
      exact hlisted.1
    simp [ApplyCall.dismisses, hcontact, hpending]
  · rw [dismissedProposals_run, List.length_map]
    rfl

/-! ### An opt-out that is lost -/

/-- A duplicate that unsubscribed, with an outreach proposal that waits to be approved and one that
was approved; and a third contact that it may be merged with too. -/
def sampleReview : MergeTables where
  contacts :=
    [{ id := "a" },
      { id := "b", columns := [("doNotContact", .bool true), ("unsubscribedAt", .str "2026-01-01")] },
      { id := "c" }]
  outreach :=
    [{ id := "o1", contactId := "b", campaignId := "k", status := .pending },
      { id := "o2", contactId := "b", campaignId := "k", status := .approved }]
  proposals :=
    [{ id := "p", contactAId := "a", contactBId := "b", confidence := "high"
       recommendedKeeperId := "a" },
      { id := "q", contactAId := "b", contactBId := "c", confidence := "high"
        recommendedKeeperId := "c" }]
  campaigns := [("k", "Spring")]

def sampleReviewEnv : MergeEnv where
  mergeFingerprint p := p.id
  parseDate _ := none
  mergedAt := "2026-02-01T00:00:00.000Z"
  archiveMonth := "2026-02"

/-- What the merge of the sample leaves: the tables, if it succeeds. -/
def sampleMerged : MergeTables :=
  ((applyMergeProposal sampleReview sampleReviewEnv "p" "p").toOption).getD {}

theorem sampleMerged_eq :
    applyMergeProposal sampleReview sampleReviewEnv "p" "p" = .ok sampleMerged := rfl

/-- The merge of the sample, after its review. -/
theorem merge_after_review_sample :
    (∀ o ∈ dismissedOutreach sampleReview sampleMerged, o = "o1" ∨ o = "o2") ∧
      dismissedOutreach sampleReview sampleMerged = ["o1"] ∧
      (dismissedProposals sampleReview sampleMerged).length = 1 := by
  have hreview : ∃ review, getMergeProposal sampleReview sampleReviewEnv "p" = .ok review ∧
      review.impact = some (loadMergeImpact sampleReview review.proposal) ∧
      review.proposal.duplicateId = "b" := ⟨_, rfl, rfl, rfl⟩
  obtain ⟨review, hreview, himpact, hduplicate⟩ := hreview
  obtain ⟨hlisted, -, -, -⟩ := merge_after_review hreview himpact sampleMerged_eq
  refine ⟨fun o ho => ?_, by decide +kernel, by decide +kernel⟩
  have hmem := hlisted o ho
  rw [loadMergeImpact, hduplicate] at hmem
  simpa [sampleReview, isListed] using hmem

/-- **An opt-out may be lost**: the duplicate of the sample has opted out, the reviewed patch says
nothing about it, and the keeper has not opted out after the merge. -/
theorem merge_drops_opt_out : ¬ ∀ (T T' : MergeTables) (env : MergeEnv) (id fingerprint : String)
    (review : MergeReview) (impact : MergeImpact), getMergeProposal T env id = .ok review →
    review.impact = some impact → review.proposal.status = .pending →
    applyMergeProposal T env id fingerprint = .ok T' →
    (∀ o, o ∈ dismissedOutreach T T' ↔ o ∈ impact.pendingOutreach.map (·.id)) ∧
      (dismissedProposals T T').length = impact.supersededProposalCount ∧
      (¬ SetsOptOut review.proposal.recommendedPatch → ∀ keeper duplicate keeper',
        T.contact review.proposal.recommendedKeeperId = some keeper →
        T.contact review.proposal.duplicateId = some duplicate →
        T'.contact review.proposal.recommendedKeeperId = some keeper' →
        keeper.OptedOut ∨ duplicate.OptedOut → keeper'.OptedOut) := by
  intro hclaim
  have hreview : ∃ review impact, getMergeProposal sampleReview sampleReviewEnv "p" = .ok review ∧
      review.impact = some impact ∧ review.proposal.status = .pending ∧
      review.proposal.recommendedPatch = [] ∧ review.proposal.recommendedKeeperId = "a" ∧
      review.proposal.duplicateId = "b" := ⟨_, _, rfl, rfl, rfl, rfl, rfl, rfl⟩
  obtain ⟨review, impact, hreview, himpact, hpending, hpatch, hkeeper, hduplicate⟩ := hreview
  have hkeep := (hclaim _ _ _ _ _ _ _ hreview himpact hpending sampleMerged_eq).2.2
  rw [hpatch, hkeeper, hduplicate] at hkeep
  have hnone : ¬ SetsOptOut [] := fun ⟨f, hf, _⟩ => List.not_mem_nil hf
  have hout : Contact.OptedOut
      { id := "b", columns := [("doNotContact", .bool true), ("unsubscribedAt", .str "2026-01-01")] } :=
    .inl rfl
  have hafter := hkeep hnone { id := "a" } _ { id := "a" } rfl rfl rfl (.inr hout)
  rcases hafter with hdnc | ⟨v, hv, -⟩
  · cases hdnc
  · cases hv

end Munin
