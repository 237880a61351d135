import Munin.Outreach.BroadcastSessions

/-!
# What was approved is what a broadcast sends

An approval compares the fingerprint that was submitted with the broadcast it read, and stores the
compiled body. The subject, the preheader and the channel are not stored: a batch takes them from
the broadcast as it finds it.

* **`ContentStands`** — the condition on a statement: an edit does not land on a broadcast that is
  approved or being sent, and an approval lands on a broadcast that is still pending with the
  header fields it read.
* **`sent_as_approved`** — under the condition every message carries the body, the header fields
  and the channel with the approved fingerprint, and goes to a member of the approved audience.
-/

namespace Munin

open Foundations

/-- The content that was approved stands. -/
def ContentStands (_ : ℕ) (p : BroadcastPoint) (d : BroadcastDesk) : Prop :=
  match p with
  | .updating .. => d.broadcast.status ≠ .approved ∧ d.broadcast.status ≠ .sending
  | .approving read .. =>
    d.broadcast.status = .pending ∧ d.broadcast.subject = read.subject ∧
      d.broadcast.preheader = read.preheader ∧ d.broadcast.channelId = read.channelId
  | _ => True

instance (t : ℕ) (p : BroadcastPoint) (d : BroadcastDesk) : Decidable (ContentStands t p d) := by
  cases p <;> dsimp only [ContentStands] <;> infer_instance

/-! ### The invariant -/

section

variable (sha256Hex : String → String)

/-- An approval fixed what its fingerprint says. -/
def BroadcastApproval.Valid (a : BroadcastApproval) : Prop :=
  broadcastFingerprint sha256Hex a.content = a.fingerprint ∧
    a.content.audienceCount = a.members.length

/-- A broadcast reads as it was approved. -/
def BroadcastApproval.Matches (a : BroadcastApproval) (b : Broadcast) : Prop :=
  b.approvedHtml = some a.content.compiledHtml ∧ b.subject = a.content.subject ∧
    b.preheader = a.content.preheader ∧ b.channelId = a.content.channelId

/-- The recipients are the approved audience. -/
def BroadcastApproval.Covers (a : BroadcastApproval) (rs : List Recipient) : Prop :=
  rs.map (·.address) = a.members.map (·.address)

/-- A message carries what its approval fixed, to a member of the audience. -/
def BroadcastMessage.Faithful (m : BroadcastMessage) : Prop :=
  ∃ a, m.approval = some a ∧ a.Valid sha256Hex ∧ m.html = a.content.compiledHtml ∧
    m.subject = a.content.subject ∧ m.preheader = a.content.preheader ∧
    m.channelId = a.content.channelId ∧ m.address ∈ a.members.map (·.address)

/-- **The invariant.** A pending broadcast has no recipients; one that is approved or being sent
reads as it was approved, and its recipients are the approved audience; every message handed over
is faithful. -/
structure BroadcastDesk.Frozen (d : BroadcastDesk) : Prop where
  empty : d.broadcast.status = .pending → d.recipients = []
  live : d.broadcast.status = .approved ∨ d.broadcast.status = .sending →
    ∃ a, d.approval = some a ∧ a.Valid sha256Hex ∧ a.Matches d.broadcast ∧ a.Covers d.recipients
  messages : ∀ m ∈ d.messages, m.Faithful sha256Hex

/-- What a session knows: an approval has compared fingerprints; a batch has read a broadcast that
was being sent, which never goes back to review; a claimed batch is faithful. -/
def BroadcastCarries (_ : ℕ) (p : BroadcastPoint) (d : BroadcastDesk) : Prop :=
  match p with
  | .approving read fingerprint _ _ prep _ =>
    broadcastFingerprint sha256Hex (read.content prep) = fingerprint
  | .claiming read approval _ _ =>
    (d.broadcast.status ≠ .pending ∧ d.broadcast.status ≠ .approved) ∧
      ∃ a, approval = some a ∧ a.Valid sha256Hex ∧ a.Matches read ∧ a.Covers d.recipients
  | .handing batch _ => ∀ m ∈ batch, m.Faithful sha256Hex
  | .finishing status _ _ => status.terminal = true
  | _ => True

variable {sha256Hex} {d : BroadcastDesk}

namespace BroadcastDesk

/-- Writes to the broadcast's own row that leave it out of the live statuses, or leave its status
and what was approved alone, keep the invariant. -/
theorem Frozen.update {f : Broadcast → Broadcast} (h : d.Frozen sha256Hex)
    (hpending : (f d.broadcast).status = .pending → d.broadcast.status = .pending)
    (hlive : (f d.broadcast).status = .approved ∨ (f d.broadcast).status = .sending →
      (d.broadcast.status = .approved ∨ d.broadcast.status = .sending) ∧
        ∀ a : BroadcastApproval, a.Matches d.broadcast → a.Matches (f d.broadcast)) :
    (d.update f).Frozen sha256Hex := by
  refine ⟨fun hst => h.empty (hpending hst), fun hst => ?_, h.messages⟩
  obtain ⟨hwas, hmatches⟩ := hlive hst
  obtain ⟨a, ha, hvalid, hm, hcovers⟩ := h.live hwas
  exact ⟨a, ha, hvalid, hmatches a hm, hcovers⟩

/-- Writes to recipients that keep who they are keep the invariant. -/
theorem Frozen.map {f : Recipient → Recipient} (h : d.Frozen sha256Hex) (hf : KeepsIdentity f) :
    ({ d with recipients := d.recipients.map f } : BroadcastDesk).Frozen sha256Hex := by
  refine ⟨fun hst => by rw [h.empty hst, List.map_nil], fun hst => ?_, h.messages⟩
  obtain ⟨a, ha, hvalid, hm, hcovers⟩ := h.live hst
  exact ⟨a, ha, hvalid, hm, (hf.map_address _).trans hcovers⟩

variable {t : ℕ} {read : Broadcast}

/-- **Approving** a broadcast that still reads as it was compared keeps the invariant. -/
theorem Frozen.approve {fingerprint : String}
    {sendAt : Patch (Option Instant)} {actor : Actor} {prep : Preparation} {now : Instant}
    (h : d.Frozen sha256Hex)
    (hread : broadcastFingerprint sha256Hex (read.content prep) = fingerprint)
    (hok : ContentStands t (.approving read fingerprint sendAt actor prep now) d) :
    (d.approve read fingerprint sendAt actor prep now).Frozen sha256Hex := by
  obtain ⟨hpending, hsubject, hpreheader, hchannel⟩ := hok
  refine ⟨fun hst => (by cases hst), fun _ => ?_, h.messages⟩
  refine ⟨⟨fingerprint, read.content prep, prep.members⟩, rfl, ⟨hread, rfl⟩,
    ⟨rfl, hsubject, hpreheader, hchannel⟩, ?_⟩
  have haddresses : ∀ first, (recipientsOf first prep.members).map (·.address) =
      prep.members.map (·.address) := by
    induction prep.members with
    | nil => exact fun _ => rfl
    | cons m ms ih =>
      intro first
      rw [recipientsOf, List.map_cons, List.map_cons, ih]
  rw [BroadcastApproval.Covers, BroadcastDesk.approve]
  simp only [h.empty hpending, List.nil_append]
  exact haddresses d.nextId

/-- Handing over faithful messages keeps the invariant. -/
theorem Frozen.hand {batch : List BroadcastMessage} (h : d.Frozen sha256Hex)
    (hb : ∀ m ∈ batch, m.Faithful sha256Hex) : (d.hand t batch).Frozen sha256Hex := by
  refine ⟨h.empty, h.live, fun m hm => ?_⟩
  rcases List.mem_append.1 hm with hm | hm
  · exact h.messages m hm
  · exact hb m hm

/-- Claiming a batch keeps the invariant. -/
theorem Frozen.claim {budget : Nat} {env : BatchEnv}
    (h : d.Frozen sha256Hex) : (d.claim t read budget env).Frozen sha256Hex := by
  have hupdate : (d.update fun b => if truthy read.failureReason then
      { b with failureReason := none, updatedAt := env.now } else b).Frozen sha256Hex := by
    refine h.update ?_ ?_ <;> split
    · exact id
    · exact id
    · exact fun hst => ⟨hst, fun _ hm => hm⟩
    · exact fun hst => ⟨hst, fun _ hm => hm⟩
  have hmap := hupdate.map (afterClaim_keeps env.facts env.now
    ((selected env.now (claimAllowance read d.recipients env.now budget) d.recipients).map (·.id)))
  exact ⟨hmap.empty, hmap.live, hmap.messages⟩

/-- The messages of a batch are faithful, when the broadcast was read while it was being sent. -/
theorem batch_faithful {a : BroadcastApproval} {budget : Nat} {env : BatchEnv}
    (hvalid : a.Valid sha256Hex) (hmatches : a.Matches read) (hcovers : a.Covers d.recipients) :
    ∀ m ∈ (d.batchOf read budget env).map (message read (some a)), m.Faithful sha256Hex := by
  intro m hm
  obtain ⟨r, hr, rfl⟩ := List.mem_map.1 hm
  obtain ⟨hhtml, hsubject, hpreheader, hchannel⟩ := hmatches
  refine ⟨a, rfl, hvalid, ?_, hsubject, hpreheader, hchannel, ?_⟩
  · rw [message, hhtml, Option.getD_some]
  · rw [← hcovers]
    exact List.mem_map_of_mem (f := (·.address)) (mem_claimed hr).1

end BroadcastDesk

/-! ### Every statement keeps the invariant -/

section Statements

variable {t : ℕ} {p : BroadcastPoint} {d' : BroadcastDesk} {q : Option BroadcastPoint}

/-- **Step lemma.** Where the content stands, a statement keeps the invariant and leaves its
session knowing what it should. -/
theorem exec_broadcast_frozen (hd : d.Frozen sha256Hex) (hk : BroadcastCarries sha256Hex t p d)
    (hok : ContentStands t p d) (hexec : p.exec sha256Hex t d = some (d', q)) :
    d'.Frozen sha256Hex ∧ ∀ p', q = some p' → BroadcastCarries sha256Hex t p' d' := by
  cases p with
  | updateBroadcast patch now =>
    cases hexec
    refine ⟨hd, fun p' hp' => ?_⟩
    split at hp' <;> cases hp'
    exact trivial
  | updating patch now =>
    cases hexec
    refine ⟨hd.update id fun hst => ?_, fun p' hp' => by cases hp'⟩
    exact absurd hst (not_or.2 hok)
  | approveBroadcast fingerprint sendAt actor prep now =>
    cases hexec
    refine ⟨hd, fun p' hp' => ?_⟩
    split at hp'
    · rename_i hcheck
      cases hp'
      exact (approveBroadcastCheck_ok hcheck).2
    · cases hp'
  | approving read fingerprint sendAt actor prep now =>
    simp only [BroadcastPoint.exec] at hexec
    split at hexec <;> cases hexec
    · exact ⟨hd, fun p' hp' => by cases hp'⟩
    · exact ⟨hd.approve hk hok, fun p' hp' => by cases hp'⟩
  | dismissBroadcast reason actor now =>
    cases hexec
    refine ⟨hd, fun p' hp' => ?_⟩
    split at hp' <;> cases hp'
    exact trivial
  | dismissing reason actor now =>
    cases hexec
    refine ⟨hd.update (fun hst => by cases hst) ?_, fun p' hp' => by cases hp'⟩
    rintro (hst | hst) <;> cases hst
  | cancelBroadcast reason commits now =>
    cases hexec
    refine ⟨hd, fun p' hp' => ?_⟩
    split at hp'
    · split at hp' <;> cases hp' <;> exact trivial
    · cases hp'
  | returning reason commits now =>
    simp only [BroadcastPoint.exec] at hexec
    split_ifs at hexec <;> cases hexec
    · refine ⟨hd, ?_⟩
      rintro p' ⟨⟩
      exact trivial
    · refine ⟨⟨fun _ => rfl, ?_, hd.messages⟩, fun p' hp' => by cases hp'⟩
      rintro (hst | hst) <;> cases hst
    · exact ⟨hd, fun p' hp' => by cases hp'⟩
  | sweeping reason commits now =>
    simp only [BroadcastPoint.exec] at hexec
    split_ifs at hexec
    cases hexec
    refine ⟨hd.map ?_, ?_⟩
    · intro r
      dsimp only
      split <;> exact ⟨rfl, rfl⟩
    · rintro p' ⟨⟩
      exact trivial
  | cancelling reason commits now =>
    cases hexec
    refine ⟨?_, fun p' hp' => by cases hp'⟩
    unfold BroadcastDesk.cancel
    split
    · have hmap := (hd.update (f := (·.cancel reason now)) (fun hst => by cases hst) (by
        rintro (hst | hst) <;> cases hst)).map
          ((Recipient.cancel_keeps now).ite (·.lockedBy = some t))
      exact ⟨hmap.empty, hmap.live, hmap.messages⟩
    · refine hd.map ?_
      intro r
      dsimp only
      split <;> exact ⟨rfl, rfl⟩
  | startDueBroadcast now =>
    simp only [BroadcastPoint.exec] at hexec
    split at hexec <;> cases hexec
    · rename_i happroved
      refine ⟨hd.update (fun hst => by cases hst) fun _ => ⟨.inl happroved, fun _ hm => hm⟩, ?_⟩
      exact fun p' hp' => by cases hp'
    · exact ⟨hd, fun p' hp' => by cases hp'⟩
  | claimBatch budget env =>
    cases hexec
    refine ⟨hd, fun p' hp' => ?_⟩
    -- It was read while being sent, so an approval covers it.
    split_ifs at hp' with hsending
    cases hp'
    have hst : d.broadcast.status = .sending := not_not.1 (not_or.1 hsending).1
    exact ⟨⟨by simp [hst], by simp [hst]⟩, hd.live (.inr hst)⟩
  | claiming read approval budget env =>
    obtain ⟨-, a, rfl, hvalid, hmatches, hcovers⟩ := hk
    simp only [BroadcastPoint.exec] at hexec
    split at hexec <;> cases hexec
    · refine ⟨hd.claim, fun p' hp' => ?_⟩
      split_ifs at hp'
      cases hp'
      exact BroadcastDesk.batch_faithful hvalid hmatches hcovers
    · exact ⟨hd.update id fun hst => ⟨hst, fun _ hm => hm⟩, fun p' hp' => by cases hp'⟩
  | handing batch env =>
    cases hexec
    refine ⟨hd.hand hk, ?_⟩
    rintro p' ⟨⟩
    exact trivial
  | recordBatch results now =>
    cases hexec
    have hmap := hd.map (Recipient.recorded_keeps now results)
    rw [← record_eq_map] at hmap
    exact ⟨⟨hmap.empty, hmap.live, hmap.messages⟩, fun p' hp' => by cases hp'⟩
  | finishIfDone now =>
    cases hexec
    refine ⟨hd, fun p' hp' => ?_⟩
    split_ifs at hp'
    cases hp'
    exact trivial
  | countingOpen failureReason now =>
    cases hexec
    refine ⟨hd, fun p' hp' => ?_⟩
    split_ifs at hp'
    cases hp'
    exact trivial
  | counting failureReason now =>
    cases hexec
    refine ⟨hd, ?_⟩
    rintro p' ⟨⟩
    exact finishStatus_terminal _
  | finishing status failureReason now =>
    have hterm : status.terminal = true := hk
    simp only [BroadcastPoint.exec] at hexec
    split at hexec <;> cases hexec
    · refine ⟨hd.update (fun hst => ?_) fun hst => ?_, fun p' hp' => by cases hp'⟩
      · obtain rfl : status = .pending := hst
        cases hterm
      · rcases hst with hst | hst
        · obtain rfl : status = .approved := hst
          cases hterm
        · obtain rfl : status = .sending := hst
          cases hterm
    · exact ⟨hd, fun p' hp' => by cases hp'⟩
  | recoverStaleSends now =>
    cases hexec
    exact ⟨hd.map (Recipient.recover_keeps now), fun p' hp' => by cases hp'⟩

/-- **A broadcast that was started never goes back to review**, and its audience stays. -/
theorem exec_started (hk : BroadcastCarries sha256Hex t p d) (hok : ContentStands t p d)
    (hexec : p.exec sha256Hex t d = some (d', q))
    (hst : d.broadcast.status ≠ .pending ∧ d.broadcast.status ≠ .approved) :
    (d'.broadcast.status ≠ .pending ∧ d'.broadcast.status ≠ .approved) ∧
      d'.recipients.map (·.address) = d.recipients.map (·.address) := by
  cases p with
  | approving read fingerprint sendAt actor prep now => exact absurd hok.1 hst.1
  | returning reason commits now =>
    simp only [BroadcastPoint.exec, if_pos hst.2] at hexec
    cases hexec
    exact ⟨hst, rfl⟩
  | dismissing reason actor now =>
    cases hexec
    exact ⟨⟨nofun, nofun⟩, rfl⟩
  | sweeping reason commits now =>
    simp only [BroadcastPoint.exec] at hexec
    split_ifs at hexec
    cases hexec
    refine ⟨hst, KeepsIdentity.map_address (fun r => ?_) _⟩
    split <;> exact ⟨rfl, rfl⟩
  | cancelling reason commits now =>
    cases hexec
    unfold BroadcastDesk.cancel
    split
    · exact ⟨⟨nofun, nofun⟩,
        ((Recipient.cancel_keeps now).ite (·.lockedBy = some t)).map_address _⟩
    · refine ⟨hst, KeepsIdentity.map_address (fun r => ?_) _⟩
      split <;> exact ⟨rfl, rfl⟩
  | startDueBroadcast now =>
    simp only [BroadcastPoint.exec, if_neg hst.2] at hexec
    cases hexec
    exact ⟨hst, rfl⟩
  | claiming read approval budget env =>
    simp only [BroadcastPoint.exec] at hexec
    split at hexec <;> cases hexec
    · refine ⟨?_, (afterClaim_keeps env.facts env.now _).map_address _⟩
      unfold BroadcastDesk.claim
      dsimp only
      split <;> exact hst
    · exact ⟨hst, rfl⟩
  | recordBatch results now =>
    cases hexec
    refine ⟨hst, ?_⟩
    dsimp only
    rw [record_eq_map]
    exact (Recipient.recorded_keeps now results).map_address _
  | finishing status failureReason now =>
    have hterm : status.terminal = true := hk
    simp only [BroadcastPoint.exec] at hexec
    split at hexec <;> cases hexec
    · refine ⟨⟨?_, ?_⟩, rfl⟩ <;>
      · rintro (rfl : status = _)
        cases hterm
    · exact ⟨hst, rfl⟩
  | recoverStaleSends now =>
    cases hexec
    exact ⟨hst, (Recipient.recover_keeps now).map_address _⟩
  | _ =>
    cases hexec
    exact ⟨hst, rfl⟩

end Statements

end

/-! ### Runs -/

theorem broadcast_freeze_outline (sha256Hex : String → String) :
    (broadcastSessions sha256Hex).PointOutline BroadcastDesk.created ContentStands
      (BroadcastDesk.Frozen sha256Hex) (BroadcastCarries sha256Hex) where
  start := by
    rintro _ ⟨b, hb, rfl⟩
    refine ⟨fun _ => rfl, fun h => ?_, fun m hm => by cases hm⟩
    rcases h with h | h <;> cases hb.symm.trans h
  entry t p d hentry _ := by
    cases p <;> first | exact trivial | cases hentry
  exec t p d d' q hd hk hok hexec := exec_broadcast_frozen hd hk hok hexec
  stable t p d d' q _ hk hok hexec u r _ hr := by
    cases r with
    | claiming read approval budget env =>
      obtain ⟨hst, a, ha, hvalid, hmatches, hcovers⟩ := hr
      obtain ⟨hst', haddresses⟩ := exec_started hk hok hexec hst
      exact ⟨hst', a, ha, hvalid, hmatches, haddresses.trans hcovers⟩
    | _ => exact hr

/-- **What was approved is what is sent.** In every state reached while the contents stand, each
message handed to the provider was covered by an approval: it carries the body, the subject, the
preheader and the channel of a content with the fingerprint that was submitted, and goes to a
member of the audience that was counted; and whatever content was shown under that fingerprint is
the same, as far as the digest tells their texts apart. -/
theorem sent_as_approved (sha256Hex : String → String)
    {w : Sessions.World BroadcastDesk BroadcastPoint}
    (h : (broadcastSessions sha256Hex).Reaches BroadcastDesk.created ContentStands w)
    {m : BroadcastMessage} (hm : m ∈ w.store.messages) :
    ∃ a, m.approval = some a ∧
      broadcastFingerprint sha256Hex a.content = a.fingerprint ∧
      a.content.audienceCount = a.members.length ∧
      m.html = a.content.compiledHtml ∧ m.subject = a.content.subject ∧
      m.preheader = a.content.preheader ∧ m.channelId = a.content.channelId ∧
      m.address ∈ a.members.map (·.address) ∧
      ∀ shown : BroadcastContent, broadcastFingerprint sha256Hex shown = a.fingerprint →
        Distinguishes sha256Hex shown.canonical a.content.canonical → shown.Same a.content := by
  obtain ⟨a, ha, ⟨hfp, hcount⟩, hhtml, hsubject, hpreheader, hchannel, haddress⟩ :=
    (Sessions.reaches_outline (broadcast_freeze_outline sha256Hex).outline h).1.messages m hm
  refine ⟨a, ha, hfp, hcount, hhtml, hsubject, hpreheader, hchannel, haddress, ?_⟩
  intro shown hshown hcollision
  exact same_of_broadcastFingerprint_eq hcollision (hshown.trans hfp.symm)

/-! ### Two runs -/

theorem sent_as_approved_sample :
    ∃ w m a, (broadcastSessions sampleBroadcastDigest).Reaches BroadcastDesk.created
        ContentStands w ∧
      m ∈ w.store.messages ∧ m.subject = "News" ∧ m.approval = some a ∧
      m.subject = a.content.subject := by
  obtain ⟨w, hw, hone⟩ := Sessions.exists_reaches (broadcastSessions sampleBroadcastDigest)
    BroadcastDesk.created ContentStands (s := { broadcast := sampleBroadcast })
    ⟨sampleBroadcast, rfl, rfl⟩ approvedBroadcastRun
    (f := fun w => w.store.messages.map (·.subject)) (v := ["News"]) (by decide)
  obtain ⟨m, hm, hsubject⟩ : ∃ m ∈ w.store.messages, m.subject = "News" :=
    List.mem_map.1 (by rw [hone]; exact List.mem_singleton_self _)
  obtain ⟨a, ha, -, -, -, hsame, -⟩ := sent_as_approved sampleBroadcastDigest hw hm
  exact ⟨w, m, a, hw, hm, hsubject, ha, hsame⟩

/-- An edit has read the broadcast as pending when the approval lands; its write follows. -/
def editedAfterApproval : List (Sessions.Move BroadcastPoint) :=
  [.call 0 (.updateBroadcast { subject := .set "Buy now" } 0), .exec 0,
    .call 1 sampleBroadcastApproval, .exec 1, .exec 1, .exec 0,
    .call 2 (.startDueBroadcast 0), .exec 2,
    .call 3 sampleBatch, .exec 3, .exec 3, .exec 3]

/-- **An edit is sent that nobody approved**: a message goes out under a subject other than the one
its approval fixed. -/
theorem edit_sent_unapproved :
    ∃ w m a, (broadcastSessions sampleBroadcastDigest).machine.run
        (.idle { broadcast := sampleBroadcast }) editedAfterApproval = some w ∧
      m ∈ w.store.messages ∧ m.approval = some a ∧ m.subject ≠ a.content.subject := by
  obtain ⟨w, hw, hone⟩ := Option.map_eq_some_iff.1 (show
    ((broadcastSessions sampleBroadcastDigest).machine.run
      (.idle { broadcast := sampleBroadcast }) editedAfterApproval).map
      (fun w => w.store.messages.map fun m =>
        (m.subject, m.approval.map fun a => a.content.subject)) =
      some [("Buy now", some "News")] by decide)
  obtain ⟨m, hm, hpair⟩ : ∃ m ∈ w.store.messages,
      (m.subject, m.approval.map fun a => a.content.subject) = ("Buy now", some "News") :=
    List.mem_map.1 (by rw [hone]; exact List.mem_singleton_self _)
  obtain ⟨hsubject, happroval⟩ := Prod.mk.inj hpair
  obtain ⟨a, ha, hcontent⟩ := Option.map_eq_some_iff.1 happroval
  exact ⟨w, m, a, hw, hm, ha, by rw [hsubject, hcontent]; decide⟩

end Munin
