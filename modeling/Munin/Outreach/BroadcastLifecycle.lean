import Munin.Outreach.BroadcastLedger

/-!
# The life of a broadcast and of its recipients

Cancelling, finishing, recording a batch and recovering stale sends all write the broadcast and its
recipients on their own, while batches are out at the provider. This file proves what holds as long
as none of them acts on what another has meanwhile ended, and exhibits a run that leaves a
recipient queued on a cancelled broadcast.

* **`Orderly`** — the condition on a statement.
* **`BroadcastDesk.Wrote`** — the writes that statements meeting it make, `exec_wrote`.
* **`Tracks`** — what the store says about the batch of each session.
* **`broadcast_lifecycle`** — under the condition a broadcast that has ended keeps its status and,
  once no batch is in flight, has nobody waiting; a settled recipient is never sent to again; and
  nobody is tried more than `MAX_BROADCAST_SEND_ATTEMPTS` times.
-/

namespace Munin

open Foundations

/-! ### Where a statement lands -/

/-- The statement of a session acts on nothing that has meanwhile ended: an approval or a dismissal
finds the broadcast not ended; a cancellation finds it not ended otherwise, and nobody queued since
it marked the queue; a finish finds nobody queued since it counted; a batch is handed over before
any of it was given up as stale; and a failed delivery is put back only on a recipient that is
still being sent to, of a broadcast that has not ended. -/
def Orderly (t : ℕ) (p : BroadcastPoint) (d : BroadcastDesk) : Prop :=
  match p with
  | .approving .. | .dismissing .. => d.broadcast.status.terminal = false
  | .cancelling _ commits _ => commits = true →
    (d.broadcast.status.terminal = false ∨ d.broadcast.status = .cancelled) ∧
      ∀ r ∈ d.recipients, r.status = .queued → r.lockedBy = some t
  | .finishing .. => d.broadcast.status = .sending → ∀ r ∈ d.recipients, r.status ≠ .queued
  | .handing batch _ => ∀ m ∈ batch, ∃ r ∈ d.recipients, r.id = m.recipient ∧ r.status = .sending
  | .recordBatch results _ => ∀ r ∈ d.recipients, requeues results r →
    r.status = .sending ∧ d.broadcast.status.terminal = false
  | _ => True

instance (t : ℕ) (p : BroadcastPoint) (d : BroadcastDesk) : Decidable (Orderly t p d) := by
  rcases p with _ | _ <;> dsimp only [Orderly] <;> infer_instance

namespace BroadcastDesk

variable {t : ℕ} {d d' : BroadcastDesk}

/-! ### The writes -/

/-- What session `t` writes with a statement that acts on nothing ended. -/
inductive Wrote (t : ℕ) (d : BroadcastDesk) : BroadcastDesk → Prop
  /-- Writes to the broadcast's own row, and writes to its recipients that cost no try. -/
  | rewrite (f : Broadcast → Broadcast) (g : Recipient → Recipient)
      (hid : ∀ r, (g r).id = r.id) (hattempts : ∀ r, (g r).attempts = r.attempts)
      (hstatus : ∀ r ∈ d.recipients, (g r).status = r.status ∨ (g r).status.settled = true)
      (hkeeps : d.broadcast.status.terminal = true →
        (f d.broadcast).status = d.broadcast.status)
      (hclosed : (f d.broadcast).status.terminal = true → d.broadcast.status.terminal = false →
        ∀ r ∈ d.recipients, (g r).status ≠ .queued) :
      Wrote t d { d with broadcast := f d.broadcast, recipients := d.recipients.map g }
  /-- The audience is inserted and the broadcast approved. -/
  | approve (read : Broadcast) (fingerprint : String) (sendAt : Patch (Option Instant))
      (actor : Actor) (prep : Preparation) (now : Instant)
      (hopen : d.broadcast.status.terminal = false) :
      Wrote t d (d.approve read fingerprint sendAt actor prep now)
  /-- An approved broadcast goes back to review, and its recipients are deleted. -/
  | returned (reason : String) (now : Instant) (hopen : d.broadcast.status.terminal = false) :
      Wrote t d { d with
        broadcast := d.broadcast.returnToReview reason now
        recipients := []
        approval := none }
  /-- A batch is claimed. -/
  | claim (read : Broadcast) (budget : Nat) (env : BatchEnv) :
      Wrote t d (d.claim t read budget env)
  /-- What the session has claimed is handed over. -/
  | hand (batch : List BroadcastMessage)
      (hbatch : (d.ready.filter (·.1 = t)).map (·.2) = batch.map (·.recipient))
      (hsending : ∀ m ∈ batch, ∃ r ∈ d.recipients, r.id = m.recipient ∧ r.status = .sending) :
      Wrote t d (d.hand t batch)
  /-- The results of what the session has out are recorded. -/
  | record (results : List BulkEmailResult) (now : Instant)
      (hkeys : ∀ x, (t, x) ∈ d.out → x ∈ results.map (·.key))
      (hopen : ∀ r ∈ d.recipients, requeues results r →
        r.status = .sending ∧ d.broadcast.status.terminal = false) :
      Wrote t d { d with
        recipients := Munin.record now d.recipients results
        out := d.out.filter (·.1 ≠ t) }

/-- A write to the broadcast's own row. -/
theorem Wrote.row {f : Broadcast → Broadcast}
    (hkeeps : d.broadcast.status.terminal = true → (f d.broadcast).status = d.broadcast.status)
    (hclosed : (f d.broadcast).status.terminal = true → d.broadcast.status.terminal = false →
      ∀ r ∈ d.recipients, r.status ≠ .queued) : Wrote t d (d.update f) := by
  have h := Wrote.rewrite (t := t) (d := d) f id (fun _ => rfl) (fun _ => rfl)
    (fun _ _ => .inl rfl) hkeeps hclosed
  rw [List.map_id] at h
  exact h

/-- A write to recipients alone. -/
theorem Wrote.map {g : Recipient → Recipient} (hid : ∀ r, (g r).id = r.id)
    (hattempts : ∀ r, (g r).attempts = r.attempts)
    (hstatus : ∀ r ∈ d.recipients, (g r).status = r.status ∨ (g r).status.settled = true) :
    Wrote t d { d with recipients := d.recipients.map g } := by
  have h := Wrote.rewrite (t := t) (d := d) (fun b => b) g hid hattempts hstatus (fun _ => rfl)
    fun hterm hopen => absurd (hterm.symm.trans hopen) nofun
  exact h

/-- A statement that writes nothing. -/
theorem Wrote.nothing : Wrote t d d :=
  .row (f := fun b => b) (fun _ => rfl) fun hterm hopen =>
    absurd (hterm.symm.trans hopen) nofun

/-- **Every write keeps the invariant.** -/
theorem Wrote.lawful (hw : Wrote t d d') (h : d.Lawful) : d'.Lawful := by
  cases hw with
  | rewrite f g hid hattempts hstatus _ hclosed => exact h.rewrite hid hattempts hstatus hclosed
  | approve => exact h.approve
  | returned =>
    refine ⟨.nil, ?_, ?_, ?_, h.bounded, h.unborn, fun hterm => (by cases hterm), ?_⟩ <;>
    · intro r hr
      cases hr
  | claim => exact h.claim
  | hand batch hbatch _ => exact h.hand hbatch
  | record results now hkeys hopen => exact h.record hkeys fun r hr hre => (hopen r hr hre).2

/-- **No write leaves a terminal status.** -/
theorem Wrote.terminal (hw : Wrote t d d') (hterm : d.broadcast.status.terminal = true) :
    d'.broadcast.status = d.broadcast.status := by
  cases hw with
  | rewrite _ _ _ _ _ hkeeps _ => exact hkeeps hterm
  | approve _ _ _ _ _ _ hopen => cases hterm.symm.trans hopen
  | returned _ _ hopen => cases hterm.symm.trans hopen
  | claim =>
    dsimp only [BroadcastDesk.claim]
    split <;> rfl
  | hand | record => rfl

/-! ### Settled recipients -/

/-- The recipient with this id, if it is still there, has been settled. -/
def Settled (x : Nat) (d : BroadcastDesk) : Prop :=
  x < d.nextId ∧ ∀ r ∈ d.recipients, r.id = x → r.status.settled = true

/-- **A settled recipient stays settled.** -/
theorem Wrote.settled (hw : Wrote t d d') (h : d.Lawful) {x : Nat} (hx : d.Settled x) :
    d'.Settled x := by
  cases hw with
  | rewrite _ g hid _ hstatus _ _ =>
    refine ⟨hx.1, fun r' hr' hr'x => ?_⟩
    obtain ⟨r, hr, rfl⟩ := List.mem_map.1 hr'
    rcases hstatus r hr with hsame | hsettled
    · exact hsame ▸ hx.2 r hr ((hid r).symm.trans hr'x)
    · exact hsettled
  | approve =>
    refine ⟨Nat.lt_add_right _ hx.1, fun r hr hrx => ?_⟩
    rcases List.mem_append.1 hr with hr | hr
    · exact hx.2 r hr hrx
    · exact absurd (hrx ▸ hx.1) (Nat.not_lt.2 (mem_recipientsOf hr).1)
  | returned => exact ⟨hx.1, fun r hr => by cases hr⟩
  | claim read budget env =>
    refine ⟨hx.1, fun r' hr' hr'x => ?_⟩
    obtain ⟨r, hr, rfl⟩ := List.mem_map.1 hr'
    have hrx : r.id = x := (afterClaim_keeps env.facts env.now _ r).1.symm.trans hr'x
    have hsettled := hx.2 r hr hrx
    rcases claim_cases h read budget env hr with ⟨-, -, hq⟩ | ⟨-, -, hst | hst⟩
    · rw [hq] at hsettled
      cases hsettled
    · exact hst ▸ hsettled
    · exact hst ▸ rfl
  | hand => exact hx
  | record results now _ hopen =>
    refine ⟨hx.1, fun r' hr' hr'x => ?_⟩
    rw [record_eq_map] at hr'
    obtain ⟨r, hr, rfl⟩ := List.mem_map.1 hr'
    have hsettled := hx.2 r hr ((Recipient.recorded_keeps now results r).1.symm.trans hr'x)
    rcases recorded_status now results r with ⟨hst, -⟩ | hst | hst | ⟨-, hre⟩
    · exact hst ▸ hsettled
    · exact hst ▸ rfl
    · exact hst ▸ rfl
    · rw [(hopen r hr hre).1] at hsettled
      cases hsettled

/-- The messages handed over for one recipient. -/
def messagesTo (x : Nat) (d : BroadcastDesk) : List BroadcastMessage :=
  d.messages.filter (·.recipient = x)

/-- **A settled recipient is not sent to.** -/
theorem Wrote.messagesTo (hw : Wrote t d d') {x : Nat} (hx : d.Settled x) :
    d'.messagesTo x = d.messagesTo x := by
  cases hw with
  | hand batch _ hsending =>
    have hnone : batch.filter (·.recipient = x) = [] := by
      refine List.filter_eq_nil_iff.2 fun m hm hmx => ?_
      obtain ⟨r, hr, hid, hst⟩ := hsending m hm
      have hsettled := hx.2 r hr (hid.trans (of_decide_eq_true hmx))
      rw [hst] at hsettled
      cases hsettled
    rw [BroadcastDesk.messagesTo, BroadcastDesk.hand, List.filter_append, hnone, List.append_nil]
    rfl
  | _ => rfl

/-- A write of one session leaves the batches of the others alone. -/
theorem Wrote.others (hw : Wrote t d d') {u : ℕ} (hu : u ≠ t) :
    d'.ready.filter (·.1 = u) = d.ready.filter (·.1 = u) ∧
      ∀ x, (u, x) ∈ d'.out → (u, x) ∈ d.out := by
  cases hw with
  | claim read budget env =>
    refine ⟨?_, fun x hx => hx⟩
    rw [BroadcastDesk.claim, List.filter_append, List.filter_map]
    have hnone : ((fun e : ℕ × Nat => decide (e.1 = u)) ∘ fun r : Recipient => (t, r.id)) =
        fun _ => false := funext fun _ => decide_eq_false fun h => hu h.symm
    rw [hnone, List.filter_false, List.map_nil, List.append_nil]
  | hand batch _ _ =>
    refine ⟨?_, fun x hx => ?_⟩
    · rw [BroadcastDesk.hand, List.filter_filter]
      refine List.filter_congr fun e _ => ?_
      by_cases he : e.1 = u
      · simp [he, hu]
      · simp [he]
    · rcases List.mem_append.1 hx with hx | hx
      · exact hx
      · obtain ⟨m, -, hm⟩ := List.mem_map.1 hx
        exact absurd (congrArg Prod.fst hm).symm hu
  | record results now _ _ => exact ⟨rfl, fun x hx => (List.mem_filter.1 hx).1⟩
  | _ => exact ⟨rfl, fun x hx => hx⟩

end BroadcastDesk

open BroadcastDesk

/-! ### What the store says about each session -/

/-- The recipients that a session is about to hand over. -/
def toHand : Option BroadcastPoint → List Nat
  | some (.handing batch _) => batch.map (·.recipient)
  | _ => []

/-- The recipients whose results a session is about to record. -/
def toRecord : Option BroadcastPoint → List Nat
  | some (.recordBatch results _) => results.map (·.key)
  | _ => []

/-- What the store says about the batch of a session. -/
structure Tracks (t : ℕ) (q : Option BroadcastPoint) (d : BroadcastDesk) : Prop where
  /-- What it has claimed is what it is about to hand over. -/
  ready : (d.ready.filter (·.1 = t)).map (·.2) = toHand q
  /-- What it has out is what it has results for. -/
  out : ∀ x, (t, x) ∈ d.out → x ∈ toRecord q

section Statements

variable {t : ℕ} {p : BroadcastPoint} {d d' : BroadcastDesk} {q : Option BroadcastPoint}

/-- A session that is not between a claim and its record has nothing in flight. -/
theorem idle_of_not_inFlight (hq : ∀ p', q = some p' → p'.inFlight = false) :
    toHand q = [] ∧ toRecord q = [] := by
  cases q with
  | none => exact ⟨rfl, rfl⟩
  | some p =>
    have hp := hq p rfl
    cases p <;> first | exact ⟨rfl, rfl⟩ | cases hp

theorem Tracks.idle (h : Tracks t none d) (hq : ∀ p', q = some p' → p'.inFlight = false) :
    Tracks t q d :=
  ⟨(idle_of_not_inFlight hq).1 ▸ h.ready, (idle_of_not_inFlight hq).2 ▸ h.out⟩

/-- **Step lemma.** Every statement that acts on nothing ended makes one of the writes, and the
store follows its session. -/
theorem exec_wrote (hk : Tracks t (some p) d) (hok : Orderly t p d)
    (hexec : p.exec sha256Hex t d = some (d', q)) : Wrote t d d' ∧ Tracks t q d' := by
  -- What only reads goes on with nothing in flight.
  cases p with
  | updateBroadcast patch now =>
    cases hexec
    refine ⟨.nothing, Tracks.idle ⟨hk.ready, hk.out⟩ fun p' hp' => ?_⟩
    split at hp' <;> cases hp'
    rfl
  | updating patch now =>
    cases hexec
    exact ⟨.row (fun _ => rfl) fun hterm hopen => absurd (hterm.symm.trans hopen) nofun,
      ⟨hk.ready, hk.out⟩⟩
  | approveBroadcast fingerprint sendAt actor prep now =>
    cases hexec
    refine ⟨.nothing, Tracks.idle ⟨hk.ready, hk.out⟩ fun p' hp' => ?_⟩
    split at hp' <;> cases hp'
    rfl
  | approving read fingerprint sendAt actor prep now =>
    simp only [BroadcastPoint.exec] at hexec
    split at hexec <;> cases hexec
    · exact ⟨.nothing, ⟨hk.ready, hk.out⟩⟩
    · exact ⟨.approve _ _ _ _ _ _ hok, ⟨hk.ready, hk.out⟩⟩
  | dismissBroadcast reason actor now =>
    cases hexec
    refine ⟨.nothing, Tracks.idle ⟨hk.ready, hk.out⟩ fun p' hp' => ?_⟩
    split at hp' <;> cases hp'
    rfl
  | dismissing reason actor now =>
    cases hexec
    exact ⟨.row (fun hterm => absurd (hterm.symm.trans hok) nofun) (fun hterm => by cases hterm),
      ⟨hk.ready, hk.out⟩⟩
  | cancelBroadcast reason commits now =>
    cases hexec
    refine ⟨.nothing, Tracks.idle ⟨hk.ready, hk.out⟩ fun p' hp' => ?_⟩
    split at hp'
    · split at hp' <;> cases hp' <;> rfl
    · cases hp'
  | returning reason commits now =>
    simp only [BroadcastPoint.exec] at hexec
    split_ifs at hexec with happroved <;> cases hexec
    · exact ⟨.nothing, ⟨hk.ready, hk.out⟩⟩
    · have hopen : d.broadcast.status.terminal = false := by rw [not_not.1 happroved]; rfl
      exact ⟨.returned reason now hopen, ⟨hk.ready, hk.out⟩⟩
    · exact ⟨.nothing, ⟨hk.ready, hk.out⟩⟩
  | sweeping reason commits now =>
    simp only [BroadcastPoint.exec] at hexec
    split_ifs at hexec
    cases hexec
    refine ⟨.map (fun r => ?_) (fun r => ?_) fun r _ => .inl ?_, ⟨hk.ready, hk.out⟩⟩ <;>
      split <;> rfl
  | cancelling reason commits now =>
    cases hexec
    cases commits with
    | true =>
      -- Whoever is still queued is marked by this session, and is skipped.
      obtain ⟨hst, hlocks⟩ := hok rfl
      refine ⟨.rewrite (·.cancel reason now)
        (fun r => if r.lockedBy = some t then r.cancel now else r)
        (fun r => ?_) (fun r => ?_) (fun r _ => ?_) (fun hterm => ?_) (fun _ _ r hr => ?_),
        ⟨hk.ready, hk.out⟩⟩
      · split <;> rfl
      · split <;> rfl
      · split
        · exact .inr rfl
        · exact .inl rfl
      · rcases hst with hopen | hcancelled
        · cases hterm.symm.trans hopen
        · exact hcancelled.symm
      · split
        · nofun
        · rename_i hlock
          exact fun hq => hlock (hlocks r hr hq)
    | false =>
      refine ⟨.map (fun r => ?_) (fun r => ?_) fun r _ => .inl ?_, ⟨hk.ready, hk.out⟩⟩ <;>
        split <;> rfl
  | startDueBroadcast now =>
    simp only [BroadcastPoint.exec] at hexec
    split at hexec <;> cases hexec
    · rename_i happroved
      refine ⟨.row (fun hterm => ?_) (fun hterm => by cases hterm), ⟨hk.ready, hk.out⟩⟩
      rw [happroved] at hterm
      cases hterm
    · exact ⟨.nothing, ⟨hk.ready, hk.out⟩⟩
  | claimBatch budget env =>
    cases hexec
    refine ⟨.nothing, Tracks.idle ⟨hk.ready, hk.out⟩ fun p' hp' => ?_⟩
    split_ifs at hp'
    cases hp'
    rfl
  | claiming read approval budget env =>
    simp only [BroadcastPoint.exec] at hexec
    split at hexec <;> cases hexec
    · refine ⟨.claim read budget env, ?_, ?_⟩
      · have hmine : ((d.batchOf read budget env).map fun r => (t, r.id)).filter (·.1 = t) =
            (d.batchOf read budget env).map fun r => (t, r.id) := by
          refine List.filter_eq_self.2 fun e he => ?_
          obtain ⟨r, -, rfl⟩ := List.mem_map.1 he
          exact decide_eq_true rfl
        rw [BroadcastDesk.claim, List.filter_append, List.map_append, hk.ready, hmine,
          List.map_map]
        split_ifs with hempty
        · rw [List.isEmpty_iff.1 hempty]
          rfl
        · change List.map _ _ = List.map _ (List.map _ _)
          rw [List.map_map]
          rfl
      · intro x hx
        cases hk.out x hx
    · exact ⟨.row (fun _ => rfl) fun hterm hopen => absurd (hterm.symm.trans hopen) nofun,
        ⟨hk.ready, hk.out⟩⟩
  | handing batch env =>
    cases hexec
    refine ⟨.hand batch hk.ready hok, ?_, ?_⟩
    · have hnone : (d.hand t batch).ready.filter (·.1 = t) = [] := by
        refine List.filter_eq_nil_iff.2 fun e he => ?_
        simpa using (List.mem_filter.1 he).2
      rw [hnone]
      rfl
    · intro x hx
      rcases List.mem_append.1 hx with hx | hx
      · cases hk.out x hx
      · obtain ⟨m, hm, heq⟩ := List.mem_map.1 hx
        rw [toRecord, resultsOf, List.map_map]
        exact List.mem_map.2 ⟨m, hm, congrArg Prod.snd heq⟩
  | recordBatch results now =>
    cases hexec
    refine ⟨.record results now hk.out hok, hk.ready, fun x hx => ?_⟩
    exact absurd (List.mem_filter.1 hx).2 (by simp)
  | finishIfDone now =>
    cases hexec
    refine ⟨.nothing, Tracks.idle ⟨hk.ready, hk.out⟩ fun p' hp' => ?_⟩
    split_ifs at hp'
    cases hp'
    rfl
  | countingOpen failureReason now =>
    cases hexec
    refine ⟨.nothing, Tracks.idle ⟨hk.ready, hk.out⟩ fun p' hp' => ?_⟩
    split_ifs at hp'
    cases hp'
    rfl
  | counting failureReason now =>
    cases hexec
    exact ⟨.nothing, ⟨hk.ready, hk.out⟩⟩
  | finishing status failureReason now =>
    simp only [BroadcastPoint.exec] at hexec
    split at hexec <;> cases hexec
    · rename_i hsending
      refine ⟨.row (fun hterm => ?_) (fun _ _ => hok hsending), ⟨hk.ready, hk.out⟩⟩
      rw [hsending] at hterm
      cases hterm
    · exact ⟨.nothing, ⟨hk.ready, hk.out⟩⟩
  | recoverStaleSends now =>
    cases hexec
    refine ⟨.map (fun r => (Recipient.recover_keeps now r).1) (fun r => ?_) (fun r _ => ?_),
      ⟨hk.ready, hk.out⟩⟩ <;> unfold Recipient.recover <;> split
    · rfl
    · rfl
    · exact .inr rfl
    · exact .inl rfl

end Statements

/-! ### Runs -/

theorem broadcast_lifecycle_outline (sha256Hex : String → String) :
    (broadcastSessions sha256Hex).Outline BroadcastDesk.created Orderly
      BroadcastDesk.Lawful Tracks where
  start := by
    rintro _ ⟨b, hb, rfl⟩
    refine ⟨⟨.nil, ?_, ?_, ?_, fun _ => Nat.zero_le _, fun _ _ => rfl, ?_, ?_⟩, fun t => ⟨rfl, ?_⟩⟩
    · exact fun r hr => by cases hr
    · exact fun r hr => by cases hr
    · exact fun r hr => by cases hr
    · exact fun _ r hr => by cases hr
    · exact fun r hr => by cases hr
    · exact fun x hx => by cases hx
  entry t p d hentry _ hnone := by
    refine hnone.idle ?_
    rintro _ ⟨⟩
    cases p <;> first | rfl | cases hentry
  exec t p d d' q hd hk hok hexec :=
    let hw := exec_wrote hk hok hexec
    ⟨hw.1.lawful hd, hw.2⟩
  stable t p d d' q _ hk hok hexec u r hu hr := by
    obtain ⟨hready, hout⟩ := (exec_wrote hk hok hexec).1.others hu
    exact ⟨by rw [hready]; exact hr.ready, fun x hx => hr.out x (hout x hx)⟩

/-- Each move of a run that stays orderly writes nothing, or is one of the writes. -/
theorem step_wrote {sha256Hex : String → String}
    {w w' : Sessions.World BroadcastDesk BroadcastPoint} {m : Sessions.Move BroadcastPoint}
    (h : (broadcastSessions sha256Hex).Reaches BroadcastDesk.created Orderly w)
    (hok : Sessions.guard Orderly w m)
    (hstep : (broadcastSessions sha256Hex).machine.step w m = some w') :
    ∃ t, Wrote t w.store w'.store := by
  cases m with
  | call t p =>
    obtain ⟨-, -, rfl⟩ := Sessions.step_call _ hstep
    exact ⟨t, .nothing⟩
  | exec t =>
    obtain ⟨p, d', q, hp, hexec, rfl⟩ := Sessions.step_exec _ hstep
    have hk := (Sessions.reaches_outline (broadcast_lifecycle_outline sha256Hex) h).2 t
    exact ⟨t, (exec_wrote (hp ▸ hk) (hok p hp) hexec).1⟩

/-- **The life of a broadcast.** In every run whose statements act on nothing that has meanwhile
ended: a broadcast that has ended keeps its status; once no claimed batch is in flight it has
nobody queued or being sent to; a recipient that is settled is handed to the provider no more; and
nobody has more tries, or more hand-overs, than `MAX_BROADCAST_SEND_ATTEMPTS`. -/
theorem broadcast_lifecycle (sha256Hex : String → String)
    {w : Sessions.World BroadcastDesk BroadcastPoint}
    (h : (broadcastSessions sha256Hex).Reaches BroadcastDesk.created Orderly w) :
    (w.store.broadcast.status.terminal = true → ∀ w',
      (broadcastSessions sha256Hex).machine.Reaches (· = w) (Sessions.guard Orderly) w' →
        w'.store.broadcast.status = w.store.broadcast.status) ∧
    (w.store.broadcast.status.terminal = true →
      (∀ t p, w.live t = some p → p.inFlight = false) →
        ∀ r ∈ w.store.recipients, r.status.settled = true) ∧
    (∀ r ∈ w.store.recipients, r.status.settled = true → ∀ w',
      (broadcastSessions sha256Hex).machine.Reaches (· = w) (Sessions.guard Orderly) w' →
        w'.store.messagesTo r.id = w.store.messagesTo r.id) ∧
    (∀ r ∈ w.store.recipients, r.attempts ≤ MAX_BROADCAST_SEND_ATTEMPTS) ∧
    ∀ x, w.store.handed x ≤ MAX_BROADCAST_SEND_ATTEMPTS := by
  obtain ⟨hlawful, htracks⟩ :=
    Sessions.reaches_outline (broadcast_lifecycle_outline sha256Hex) h
  refine ⟨fun hterm w' hw' => ?_, fun hterm hidle r hr => ?_, fun r hr hsettled w' hw' => ?_,
    fun r hr => (hlawful.tries r hr).1, fun x => ?_⟩
  · refine hw'.invariant (I := fun w' => w'.store.broadcast.status = w.store.broadcast.status)
      ?_ ?_
    · rintro _ rfl
      rfl
    · intro u v m hu hst hok hstep
      obtain ⟨t, hwrote⟩ := step_wrote (h.trans hu) hok hstep
      exact (hwrote.terminal (hst ▸ hterm)).trans hst
  · cases hst : r.status with
    | queued => exact absurd hst (hlawful.closed hterm r hr)
    | sending =>
      obtain ⟨t, hready | hout⟩ := hlawful.flight r hr hst
      · have hmine : r.id ∈ (w.store.ready.filter (·.1 = t)).map (·.2) :=
          List.mem_map.2 ⟨_, List.mem_filter.2 ⟨hready, decide_eq_true rfl⟩, rfl⟩
        rw [(htracks t).ready, (idle_of_not_inFlight (hidle t)).1] at hmine
        cases hmine
      · have hmine := (htracks t).out _ hout
        rw [(idle_of_not_inFlight (hidle t)).2] at hmine
        cases hmine
    | sent | skipped | failed => rfl
  · have hstart : w.store.Settled r.id := by
      refine ⟨hlawful.fresh r hr, fun r₂ hr₂ hid => ?_⟩
      rwa [List.inj_on_of_nodup_map hlawful.ids hr₂ hr hid]
    refine (hw'.invariant (I := fun w' => w'.store.Settled r.id ∧
      w'.store.messagesTo r.id = w.store.messagesTo r.id) ?_ ?_).2
    · rintro _ rfl
      exact ⟨hstart, rfl⟩
    · intro u v m hu ⟨hset, hmsgs⟩ hok hstep
      have hu' := h.trans hu
      obtain ⟨t, hwrote⟩ := step_wrote hu' hok hstep
      have hl := (Sessions.reaches_outline (broadcast_lifecycle_outline sha256Hex) hu').1
      exact ⟨hwrote.settled hl hset, (hwrote.messagesTo hset).trans hmsgs⟩
  · exact Nat.le_trans (Nat.le_add_right _ _) (hlawful.bounded x)

/-! ### Two runs -/

/-- A batch whose delivery fails. -/
def failingBatch : BroadcastPoint :=
  .claimBatch 10 {
    facts := fun _ => { contact := some { consentLawfulBasis := some "consent" } }
    outcome := fun _ => .error "mailbox full" }

/-- A broadcast that is approved, started, sent to its one recipient and finished. -/
def finishedBroadcastRun : List (Sessions.Move BroadcastPoint) :=
  approvedBroadcastRun ++ [.exec 3,
    .call 4 (.finishIfDone 0), .exec 4, .exec 4, .exec 4, .exec 4]

theorem broadcast_lifecycle_sample :
    ∃ w, (broadcastSessions sampleBroadcastDigest).Reaches BroadcastDesk.created Orderly w ∧
      w.store.broadcast.status = .sent ∧ w.store.recipients.map (·.status) = [.sent] ∧
      (∀ w', (broadcastSessions sampleBroadcastDigest).machine.Reaches (· = w)
        (Sessions.guard Orderly) w' → w'.store.broadcast.status = .sent) ∧
      w.store.handed 0 ≤ MAX_BROADCAST_SEND_ATTEMPTS := by
  obtain ⟨w, hw, hends⟩ := Sessions.exists_reaches (broadcastSessions sampleBroadcastDigest)
    BroadcastDesk.created Orderly (s := { broadcast := sampleBroadcast })
    ⟨sampleBroadcast, rfl, rfl⟩ finishedBroadcastRun
    (f := fun w => (w.store.broadcast.status, w.store.recipients.map (·.status)))
    (v := (.sent, [.sent])) (by decide)
  obtain ⟨hstatus, hrecipients⟩ := Prod.mk.inj hends
  obtain ⟨hkeeps, -, -, -, hhanded⟩ := broadcast_lifecycle sampleBroadcastDigest hw
  have hterm : w.store.broadcast.status.terminal = true := by rw [hstatus]; rfl
  exact ⟨w, hw, hstatus, hrecipients,
    fun w' hw' => (hkeeps hterm w' hw').trans hstatus, hhanded 0⟩

/-- The broadcast is cancelled while its batch is out, and the delivery fails. -/
def cancelledWhileOut : List (Sessions.Move BroadcastPoint) :=
  [.call 1 sampleBroadcastApproval, .exec 1, .exec 1, .call 2 (.startDueBroadcast 0), .exec 2,
    .call 3 failingBatch, .exec 3, .exec 3, .exec 3,
    .call 4 (.cancelBroadcast "wrong segment" true 0), .exec 4, .exec 4, .exec 4,
    .exec 3]

/-- **A cancelled broadcast keeps a recipient queued**, with no session left at all. -/
theorem cancelled_leaves_queued :
    ∃ w, (broadcastSessions sampleBroadcastDigest).machine.run
        (.idle { broadcast := sampleBroadcast }) cancelledWhileOut = some w ∧
      w.store.broadcast.status = .cancelled ∧ (∀ t, w.live t = none) ∧
      w.store.recipients.map (·.status) = [.queued] := by
  obtain ⟨w, hw, hends⟩ := Option.map_eq_some_iff.1 (show
    ((broadcastSessions sampleBroadcastDigest).machine.run
      (.idle { broadcast := sampleBroadcast }) cancelledWhileOut).map
      (fun w => (w.store.broadcast.status, w.store.recipients.map (·.status),
        [1, 2, 3, 4].all fun t => (w.live t).isNone)) =
      some (.cancelled, [.queued], true) by decide)
  simp only [Prod.mk.injEq, List.all_eq_true, Option.isNone_iff_eq_none] at hends
  obtain ⟨hstatus, hrecipients, hlive⟩ := hends
  refine ⟨w, hw, hstatus, fun t => ?_, hrecipients⟩
  by_cases ht : t ∈ [1, 2, 3, 4]
  · exact hlive t ht
  · refine Sessions.run_live_eq _ (fun m hm => ?_) hw
    rintro rfl
    exact ht ((show ∀ m ∈ cancelledWhileOut, m.session ∈ [1, 2, 3, 4] by decide) m hm)

end Munin
