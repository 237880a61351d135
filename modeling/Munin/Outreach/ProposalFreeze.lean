import Munin.Outreach.ProposalSafety

/-!
# What the approver saw is what is sent

An approval submits the fingerprint of the draft its approver was shown, and is refused when the
row it reads carries another draft. The comparison is made on the row as read; the message that
goes out is the row as stamped, or for a scheduled send the row as the worker later reads it.

* **`DraftStands`** — the condition on a statement: an approval's stamp finds the draft its
  approver was shown, and a revision does not land on an approved row.
* **`delivered_as_approved`** — under the condition every delivery that a person approved carries
  the subject and body with the fingerprint that was submitted.
-/

namespace Munin

open Foundations

/-- The draft that was approved stands: the stamp of an approval finds the draft that its
fingerprint was compared with, and a revision's write finds the row not approved. -/
def DraftStands (_ : ℕ) (p : Point) (d : Desk) : Prop :=
  match p with
  | .approving read _ _ _ _ _ => ∀ r ∈ d.row, r.proposal.draft = read.draft
  | .revising .. => ∀ r ∈ d.row, r.proposal.status ≠ .approved
  | _ => True

instance (t : ℕ) (p : Point) (d : Desk) : Decidable (DraftStands t p d) := by
  rcases p with _ | _ <;> dsimp only [DraftStands] <;> infer_instance

section

variable (sha256Hex : String → String)

/-- A row carries the draft that its approval was given for. -/
def Row.Faithful (r : Row) : Prop :=
  ∀ fp, r.approvedWith = some fp → draftFingerprint sha256Hex r.proposal.draft = fp

/-- **The invariant.** An approved row carries the draft that was approved, and so does everything
that was delivered. -/
structure Desk.Frozen (d : Desk) : Prop where
  row : ∀ r ∈ d.row, r.proposal.status = .approved → r.Faithful sha256Hex
  deliveries : ∀ r ∈ d.deliveries, r.Faithful sha256Hex

/-- What a session knows of the snapshot it carries. -/
def Carries (_ : ℕ) (p : Point) (_ : Desk) : Prop :=
  match p with
  | .approving read fingerprint _ _ _ _ => draftFingerprint sha256Hex read.draft = fingerprint
  | .delivering read _ _ => read.Faithful sha256Hex
  | .recording read _ => read.Faithful sha256Hex
  | _ => True

variable {sha256Hex} {d : Desk}

/-- A row approved without a person says nothing of a fingerprint. -/
private theorem faithful_auto (p : Proposal) : Row.Faithful sha256Hex { proposal := p } := by
  intro fp hfp
  cases hfp

/-- A write after which the row is not approved keeps the invariant. -/
theorem Desk.Frozen.update_other {f : Row → Row} (h : d.Frozen sha256Hex)
    (hf : ∀ r ∈ d.row, (f r).proposal.status ≠ .approved) : (d.update f).Frozen sha256Hex := by
  refine ⟨fun r hr hst => ?_, h.deliveries⟩
  obtain ⟨r', hr', rfl⟩ := Option.map_eq_some_iff.1 hr
  exact absurd hst (hf r' hr')

/-- A write that touches neither the status, nor the draft, nor the approval, keeps it. -/
theorem Desk.Frozen.update_keep {f : Proposal → Proposal} (h : d.Frozen sha256Hex)
    (hstatus : ∀ p, (f p).status = p.status) (hdraft : ∀ p, (f p).draft = p.draft) :
    (d.update (Row.map f)).Frozen sha256Hex := by
  refine ⟨fun r hr hst fp hfp => ?_, h.deliveries⟩
  obtain ⟨r', hr', rfl⟩ := Option.map_eq_some_iff.1 hr
  have happroved : r'.proposal.status = .approved := (hstatus r'.proposal).symm.trans hst
  exact (congrArg (draftFingerprint sha256Hex) (hdraft r'.proposal)).trans
    (h.row r' hr' happroved fp hfp)

variable {r : Row}

/-- Delivering a faithful row keeps the invariant. -/
theorem Desk.Frozen.deliver {now : Instant} (h : d.Frozen sha256Hex)
    (hr : r.Faithful sha256Hex) : (d.deliver r now).Frozen sha256Hex := by
  refine ⟨fun r' hr' hst => ?_, fun r' hr' => ?_⟩
  · obtain rfl : r.map (markSent · now) = r' := Option.some.inj hr'
    cases hst
  · rcases List.mem_append.1 hr' with hmem | hmem
    · exact h.deliveries r' hmem
    · obtain rfl := List.mem_singleton.1 hmem
      exact hr

/-- Placing a call for a faithful row keeps the invariant. -/
theorem Desk.Frozen.call (h : d.Frozen sha256Hex) (hr : r.Faithful sha256Hex) :
    (d.call r).Frozen sha256Hex := by
  refine ⟨h.row, fun r' hr' => ?_⟩
  rcases List.mem_append.1 hr' with hmem | hmem
  · exact h.deliveries r' hmem
  · obtain rfl := List.mem_singleton.1 hmem
    exact hr

/-- Writing a faithful row keeps the invariant. -/
theorem Desk.Frozen.write (h : d.Frozen sha256Hex) (hr : r.Faithful sha256Hex) :
    ({ d with row := some r } : Desk).Frozen sha256Hex := by
  refine ⟨fun r' hr' _ => ?_, h.deliveries⟩
  obtain rfl : r = r' := Option.some.inj hr'
  exact hr

/-! ### Every statement keeps the invariant -/

section Statements

variable {t : ℕ} {p : Point}

private theorem propose_frozen {row : Proposal} {auto : Option AutoApproval}
    (hd : d.Frozen sha256Hex) : (d.propose row auto).Frozen sha256Hex := by
  unfold Desk.propose
  split
  · exact hd.write (faithful_auto _)
  · split
    · exact hd.write (faithful_auto _)
    · split
      · exact hd
      · exact hd.write (faithful_auto _)
      · split
        · exact hd.deliver (faithful_auto _)
        · exact hd
        · exact hd

/-- The stamp of an approval, where the draft stands, makes a faithful row. -/
private theorem approve_frozen {r : Row} {read : Proposal} {fingerprint : String} {actor : Actor}
    {at' : Option Instant} {env : Surroundings} {handing : Handover} (hd : d.Frozen sha256Hex)
    (hread : draftFingerprint sha256Hex read.draft = fingerprint)
    (hstands : r.proposal.draft = read.draft) :
    (d.approve r fingerprint actor at' env handing).Frozen sha256Hex := by
  have hstamped : Row.Faithful sha256Hex
      ⟨stampApproval r.proposal actor at' env.now, some fingerprint⟩ := by
    intro fp hfp
    obtain rfl : fingerprint = fp := Option.some.inj hfp
    rw [stampApproval_draft, hstands, hread]
  unfold Desk.approve
  dsimp only
  split
  · exact hd.write hstamped
  · exact hd.deliver hstamped
  · exact hd
  · split
    · exact hd.call hstamped
    · exact hd

/-- **Step lemma.** Where the draft stands, a statement keeps the invariant and its session carries
a faithful snapshot. -/
theorem exec_frozen (hd : d.Frozen sha256Hex) (hk : Carries sha256Hex t p d)
    (hok : DraftStands t p d) :
    (p.exec sha256Hex t d).1.Frozen sha256Hex ∧
      ∀ q, (p.exec sha256Hex t d).2 = some q →
        Carries sha256Hex t q (p.exec sha256Hex t d).1 := by
  -- A statement that only reads, and one behind which its session is done.
  have hread : ∀ {k : Row → Option Point},
      (∀ r ∈ d.row, ∀ q, k r = some q → Carries sha256Hex t q d) →
      (d.read k).1.Frozen sha256Hex ∧
        ∀ q, (d.read k).2 = some q → Carries sha256Hex t q (d.read k).1 := by
    intro k hk
    refine ⟨hd, fun q hq => ?_⟩
    obtain ⟨r, hr, hrq⟩ := Option.bind_eq_some_iff.1 hq
    exact hk r hr q hrq
  have hlast : ∀ {d' : Desk}, d'.Frozen sha256Hex → d'.Frozen sha256Hex ∧
      ∀ q, (none : Option Point) = some q → Carries sha256Hex t q d' :=
    fun h => ⟨h, fun _ hq => by cases hq⟩
  cases p with
  | propose row auto =>
    simp only [Point.exec]
    split
    · exact hlast hd
    · exact hlast (propose_frozen hd)
  | approveProposal fingerprint sendAt actor env handing =>
    refine hread fun r _ q hq => ?_
    split at hq
    · cases hq
    · rename_i hcheck
      cases hq
      exact (approveCheck_ok hcheck).2
  | approving read fingerprint actor at' env handing =>
    simp only [Point.exec]
    split
    · exact hlast hd
    · exact hlast (approve_frozen hd hk (hok _ ‹_›))
  | sendScheduledProposal env handing =>
    refine hread fun r hr q hq => ?_
    split_ifs at hq with happroved
    have hfaithful := hd.row r hr (not_not.1 happroved)
    split at hq <;> cases hq
    · exact trivial
    · exact hfaithful
  | deferring until' now => exact hlast (hd.update_keep (fun _ => rfl) fun _ => rfl)
  | delivering read env handing =>
    simp only [Point.exec]
    split
    · exact hlast hd
    · have hcall := hd.call (r := read) hk
      refine ⟨⟨hcall.row, hcall.deliveries⟩, ?_⟩
      rintro q ⟨⟩
      exact hk
    · exact hlast (hd.call hk)
    · refine ⟨⟨hd.row, hd.deliveries⟩, ?_⟩
      rintro q ⟨⟩
      exact hk
    · exact hlast ⟨hd.row, hd.deliveries⟩
  | recording read env =>
    have hsent : (d.update (Row.map (markSent · env.now))).Frozen sha256Hex :=
      hd.update_other fun r _ h => by cases h
    simp only [Point.exec]
    split
    · exact hlast ⟨hsent.row, hsent.deliveries⟩
    · exact hlast ⟨hsent.row, (hd.call (r := read) hk).deliveries⟩
  | recordScheduledSendFailure reason terminal now =>
    refine hread fun r _ q hq => ?_
    cases hq
    exact trivial
  | failing read reason terminal now =>
    refine hlast ?_
    cases hgive : givesUp read terminal with
    | true => exact hd.update_other fun r _ => by simp [Row.map, recordFailure, hgive]
    | false =>
      exact hd.update_keep (fun p => by simp [recordFailure, hgive]) fun _ => rfl
  | cancelScheduledSend reason now =>
    refine hread fun r _ q hq => ?_
    split_ifs at hq
    cases hq
    exact trivial
  | cancelling now => exact hlast (hd.update_other fun r _ h => by cases h)
  | dismissProposal reason actor now =>
    refine hread fun r _ q hq => ?_
    split_ifs at hq
    cases hq
    exact trivial
  | dismissing reason actor now =>
    have hclose := hd.update_other (f := Row.map (dismiss · reason actor now))
      fun r _ h => by cases h
    exact hlast ⟨hclose.row, hclose.deliveries⟩
  | withdrawProposal reason actor now =>
    refine hread fun r _ q hq => ?_
    split_ifs at hq
    cases hq
    exact trivial
  | withdrawing reason actor now =>
    have hclose := hd.update_other (f := Row.map (withdraw · reason actor now))
      fun r _ h => by cases h
    exact hlast ⟨hclose.row, hclose.deliveries⟩
  | applyRevision revision actor now =>
    refine hread fun r _ q hq => ?_
    split at hq <;> cases hq
    exact trivial
  | revising read revision actor now => exact hlast (hd.update_other fun r hr => hok r hr)
  | withdrawRun enrollmentId reason now =>
    have hclose := hd.update_other (f := Row.map (withdrawByRun · reason now))
      fun r _ h => by cases h
    simp only [Point.exec]
    split
    · exact hlast hd
    · split
      · exact hlast ⟨hclose.row, hclose.deliveries⟩
      · exact hlast hd

end Statements

end

/-! ### Runs -/

theorem freeze_outline (sha256Hex : String → String) :
    (proposalSessions sha256Hex).PointOutline Desk.fresh DraftStands (Desk.Frozen sha256Hex)
      (Carries sha256Hex) where
  start := by
    rintro _ rfl
    refine ⟨fun r hr => ?_, fun r hr => ?_⟩ <;> cases hr
  entry t p d hentry _ := by
    cases p with
    | approving read fingerprint actor at' env handing =>
      simp [proposalSessions, Point.isEntry] at hentry
    | delivering read env handing => simp [proposalSessions, Point.isEntry] at hentry
    | recording read env => simp [proposalSessions, Point.isEntry] at hentry
    | _ => exact trivial
  exec t p d d' q hd hk hok hexec := by
    obtain ⟨rfl, rfl⟩ := Prod.mk.inj (Option.some.inj hexec)
    exact exec_frozen hd hk hok
  stable t p d d' q _ _ _ _ u r _ hr := by
    cases r <;> exact hr

/-- **What the approver saw is what is sent.** In every state reached while the drafts stand, a
delivery made on a person's approval carries a draft with the fingerprint submitted; and any draft
shown under that fingerprint has the delivered subject and body, as far as the digest tells the
two texts apart. -/
theorem delivered_as_approved (sha256Hex : String → String) {w : Sessions.World Desk Point}
    (h : (proposalSessions sha256Hex).Reaches Desk.fresh DraftStands w) {r : Row}
    (hr : r ∈ w.store.deliveries) {fingerprint : String} (hfp : r.approvedWith = some fingerprint) :
    draftFingerprint sha256Hex r.proposal.draft = fingerprint ∧
      ∀ shown : FingerprintableDraft, draftFingerprint sha256Hex shown = fingerprint →
        Distinguishes sha256Hex shown.canonical r.proposal.draft.canonical →
        shown.draftSubject = r.proposal.draftSubject ∧
          shown.draftBody = r.proposal.draftBody := by
  have hfaithful :=
    (Sessions.reaches_outline (freeze_outline sha256Hex).outline h).1.deliveries r hr
  have hdelivered := hfaithful fingerprint hfp
  refine ⟨hdelivered, fun shown hshown hcollision => ?_⟩
  exact draft_eq_of_fingerprint_eq hcollision (hshown.trans hdelivered.symm)

/-- The approval for later of `scheduledSend`, delivered as it was approved. -/
theorem delivered_as_approved_scheduled :
    ∃ w r, (proposalSessions sampleDigest).Reaches Desk.fresh DraftStands w ∧
      r ∈ w.store.deliveries ∧ r.proposal.draftBody = "Hi there" ∧
      draftFingerprint sampleDigest r.proposal.draft = "6efc9cfc5437fe06bccc21599cc6f73d" := by
  obtain ⟨w, hw, hone⟩ := Sessions.exists_reaches (proposalSessions sampleDigest)
    Desk.fresh DraftStands (s := {}) rfl scheduledSend
    (f := fun w => w.store.deliveries.map fun r => (r.approvedWith, r.proposal.draftBody))
    (v := [(some "6efc9cfc5437fe06bccc21599cc6f73d", "Hi there")]) (by decide)
  obtain ⟨r, hr, hpair⟩ : ∃ r ∈ w.store.deliveries,
      (r.approvedWith, r.proposal.draftBody) =
        (some "6efc9cfc5437fe06bccc21599cc6f73d", "Hi there") :=
    List.mem_map.1 (by rw [hone]; exact List.mem_singleton_self _)
  obtain ⟨hfp, hbody⟩ := Prod.mk.inj hpair
  exact ⟨w, r, hw, hr, hbody, (delivered_as_approved sampleDigest hw hr hfp).1⟩

/-! ### A revision between check and stamp -/

/-- SHA-256, on the two texts that the run below hashes. -/
def revisedDigest (text : String) : String :=
  if text = "[\"ocam_1\",\"ccon_1\",\"initial\",\"Hello\",\"Buy now\",null]" then
    "5412a17cf3e7fecec3ddb62efe6909075984218ac3eaefcfd0fc77681ead568b"
  else sampleDigest text

/-- The approval has compared fingerprints when the draft is rewritten; its stamp follows. -/
def revisedAfterCheck : List (Sessions.Move Point) :=
  [.call 0 (.propose sampleProposal none), .exec 0,
    .call 1 (sampleApproval .omitted), .exec 1,
    .call 2 (.applyRevision { draftBody := .set "Buy now" } ⟨.adminAgent, "agt_1"⟩ 0),
    .exec 2, .exec 2, .exec 1]

/-- **A draft that nobody approved is delivered**: the fingerprint of what went out is not the one
that was submitted. -/
theorem revision_delivered_unapproved :
    ∃ w r fingerprint,
      (proposalSessions revisedDigest).machine.run (.idle {}) revisedAfterCheck = some w ∧
      r ∈ w.store.deliveries ∧ r.approvedWith = some fingerprint ∧
      draftFingerprint revisedDigest r.proposal.draft ≠ fingerprint := by
  obtain ⟨w, hw, hone⟩ := Option.map_eq_some_iff.1 (show
    ((proposalSessions revisedDigest).machine.run (.idle {}) revisedAfterCheck).map
      (fun w => w.store.deliveries.map fun r =>
        (r.approvedWith, draftFingerprint revisedDigest r.proposal.draft)) =
      some [(some "6efc9cfc5437fe06bccc21599cc6f73d", "5412a17cf3e7fecec3ddb62efe690907")]
      by decide)
  obtain ⟨r, hr, hpair⟩ : ∃ r ∈ w.store.deliveries,
      (r.approvedWith, draftFingerprint revisedDigest r.proposal.draft) =
        (some "6efc9cfc5437fe06bccc21599cc6f73d", "5412a17cf3e7fecec3ddb62efe690907") :=
    List.mem_map.1 (by rw [hone]; exact List.mem_singleton_self _)
  obtain ⟨hfp, hsent⟩ := Prod.mk.inj hpair
  exact ⟨w, r, _, hw, hr, hfp, by rw [hsent]; decide⟩

end Munin
