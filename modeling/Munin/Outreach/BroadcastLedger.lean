import Munin.Outreach.BroadcastSessions
import Mathlib.Data.List.Nodup
import Mathlib.Data.List.Count
import Mathlib.Data.List.Induction
import Mathlib.Order.Basic

/-!
# The ledger of a broadcast's deliveries

Each recipient of a broadcast is tried a number of times, and each try that was begun ends in a
hand-over to the provider. This file states what holds of the rows and the batches in flight as
long as no statement acts on what another has meanwhile ended, and proves that each kind of write
keeps it; which writes the statements are is `Munin.Outreach.BroadcastLifecycle`.

* **`requeues`** — when the results of a batch put a recipient back into the queue.
* **`BroadcastDesk.Lawful`** — the invariant: unique ids, hand-overs counted by tries, nobody
  queued once the broadcast has ended, everybody being sent to in some session's batch.
* **`Lawful.rewrite`, `Lawful.approve`, `Lawful.claim`, `Lawful.hand`, `Lawful.record`** — one
  lemma for each kind of write.
-/

namespace Munin

open Foundations

/-! ### Putting a recipient back -/

/-- The results that put a recipient back into the queue. -/
def requeues (results : List BulkEmailResult) (r : Recipient) : Prop :=
  r.attempts < MAX_BROADCAST_SEND_ATTEMPTS ∧
    ∃ result ∈ results, result.key = r.id ∧ result.outcome.isOk = false

instance (results : List BulkEmailResult) (r : Recipient) : Decidable (requeues results r) :=
  inferInstanceAs (Decidable (_ ∧ _))

/-! ### The invariant -/

namespace BroadcastDesk

/-- How often a recipient was handed to the provider. -/
def handed (d : BroadcastDesk) (x : Nat) : Nat :=
  (d.messages.map (·.recipient)).count x

/-- How often a recipient is claimed and not yet handed over. -/
def pending (d : BroadcastDesk) (x : Nat) : Nat :=
  (d.ready.map (·.2)).count x

/-- **The invariant.** -/
structure Lawful (d : BroadcastDesk) : Prop where
  /-- Ids are unique. -/
  ids : (d.recipients.map (·.id)).Nodup
  /-- Ids are given out in order. -/
  fresh : ∀ r ∈ d.recipients, r.id < d.nextId
  /-- A recipient has its tries, and one left while it is queued. -/
  tries : ∀ r ∈ d.recipients, r.attempts ≤ MAX_BROADCAST_SEND_ATTEMPTS ∧
    (r.status = .queued → r.attempts < MAX_BROADCAST_SEND_ATTEMPTS)
  /-- Each hand-over, past or to come, is one of the recipient's tries. -/
  counted : ∀ r ∈ d.recipients, d.handed r.id + d.pending r.id ≤ r.attempts
  /-- Nobody, deleted recipients included, has more hand-overs than tries. -/
  bounded : ∀ x, d.handed x + d.pending x ≤ MAX_BROADCAST_SEND_ATTEMPTS
  /-- Ids not given out have none. -/
  unborn : ∀ x, d.nextId ≤ x → d.handed x + d.pending x = 0
  /-- A broadcast that has ended has nobody queued. -/
  closed : d.broadcast.status.terminal = true → ∀ r ∈ d.recipients, r.status ≠ .queued
  /-- A recipient being sent to is in some session's batch. -/
  flight : ∀ r ∈ d.recipients, r.status = .sending →
    ∃ t, (t, r.id) ∈ d.ready ∨ (t, r.id) ∈ d.out

variable {d : BroadcastDesk}

/-- **Writes that cost no try** keep the invariant, if they queue and send to nobody anew, and end
the broadcast only where nobody is left queued. -/
theorem Lawful.rewrite {f : Broadcast → Broadcast} {g : Recipient → Recipient} (h : d.Lawful)
    (hid : ∀ r, (g r).id = r.id) (hattempts : ∀ r, (g r).attempts = r.attempts)
    (hstatus : ∀ r ∈ d.recipients, (g r).status = r.status ∨ (g r).status.settled = true)
    (hclosed : (f d.broadcast).status.terminal = true → d.broadcast.status.terminal = false →
      ∀ r ∈ d.recipients, (g r).status ≠ .queued) :
    ({ d with broadcast := f d.broadcast, recipients := d.recipients.map g } :
      BroadcastDesk).Lawful := by
  have hopen : ∀ r ∈ d.recipients, ∀ st : RecipientStatus, st.settled = false →
      (g r).status = st → r.status = st := by
    intro r hr st hst heq
    rcases hstatus r hr with hsame | hsettled
    · exact hsame.symm.trans heq
    · rw [heq, hst] at hsettled
      cases hsettled
  refine ⟨?_, ?_, ?_, ?_, h.bounded, h.unborn, fun hterm => ?_, ?_⟩
  · rw [List.map_map]
    exact (List.map_congr_left fun r _ => hid r) ▸ h.ids
  all_goals
    intro r' hr'
    obtain ⟨r, hr, rfl⟩ := List.mem_map.1 hr'
  · rw [hid]
    exact h.fresh r hr
  · rw [hattempts]
    exact ⟨(h.tries r hr).1, fun hq => (h.tries r hr).2 (hopen r hr _ rfl hq)⟩
  · rw [hid, hattempts]
    exact h.counted r hr
  · cases hbefore : d.broadcast.status.terminal with
    | true => exact fun hq => h.closed hbefore r hr (hopen r hr _ rfl hq)
    | false => exact hclosed hterm hbefore r hr
  · intro hsending
    rw [hid]
    exact h.flight r hr (hopen r hr _ rfl hsending)

/-! ### Approving -/

private theorem recipientsOf_ids (first : Nat) (members : List AudienceMember) :
    (recipientsOf first members).map (·.id) = List.range' first members.length := by
  induction members generalizing first with
  | nil => rfl
  | cons m ms ih => rw [recipientsOf, List.map_cons, ih, List.length_cons, List.range'_succ]

theorem mem_recipientsOf {first : Nat} {members : List AudienceMember} {r : Recipient}
    (h : r ∈ recipientsOf first members) :
    first ≤ r.id ∧ r.id < first + members.length ∧ r.attempts = 0 ∧ r.status = .queued := by
  have hid : r.id ∈ List.range' first members.length :=
    recipientsOf_ids first members ▸ List.mem_map_of_mem (f := (·.id)) h
  have hrange := List.mem_range'_1.1 hid
  refine ⟨hrange.1, hrange.2, ?_⟩
  clear hid hrange
  induction members generalizing first with
  | nil => cases h
  | cons m ms ih =>
    rcases List.mem_cons.1 h with rfl | h
    · exact ⟨rfl, rfl⟩
    · exact ih h

/-- **Inserting an audience** keeps the invariant. -/
theorem Lawful.approve {read : Broadcast} {fingerprint : String}
    {sendAt : Patch (Option Instant)} {actor : Actor} {prep : Preparation} {now : Instant}
    (h : d.Lawful) : (d.approve read fingerprint sendAt actor prep now).Lawful := by
  refine ⟨?_, ?_, ?_, ?_, h.bounded, ?_, fun hterm => (by cases hterm), ?_⟩
  · rw [BroadcastDesk.approve, List.map_append, recipientsOf_ids]
    refine h.ids.append List.nodup_range' ?_
    intro x hx hnew
    obtain ⟨r, hr, rfl⟩ := List.mem_map.1 hx
    have := h.fresh r hr
    have := (List.mem_range'_1.1 hnew).1
    omega
  · intro r hr
    rcases List.mem_append.1 hr with hr | hr
    · exact Nat.lt_add_right _ (h.fresh r hr)
    · exact (mem_recipientsOf hr).2.1
  · intro r hr
    rcases List.mem_append.1 hr with hr | hr
    · exact h.tries r hr
    · rw [(mem_recipientsOf hr).2.2.1]
      exact ⟨by decide, fun _ => by decide⟩
  · intro r hr
    rcases List.mem_append.1 hr with hr | hr
    · exact h.counted r hr
    · rw [(mem_recipientsOf hr).2.2.1]
      exact Nat.le_of_eq (h.unborn r.id (mem_recipientsOf hr).1)
  · intro x hx
    exact h.unborn x (Nat.le_trans (Nat.le_add_right _ _) hx)
  · intro r hr hst
    rcases List.mem_append.1 hr with hr | hr
    · exact h.flight r hr hst
    · cases (mem_recipientsOf hr).2.2.2.symm.trans hst

/-! ### Claiming a batch -/

private theorem batchOf_ids_nodup (h : d.Lawful) (read : Broadcast) (budget : Nat)
    (env : BatchEnv) : ((d.batchOf read budget env).map (·.id)).Nodup := by
  refine h.ids.sublist (List.Sublist.map _ ?_)
  exact List.filter_sublist.trans ((List.take_sublist _ _).trans List.filter_sublist)

/-- What a batch does to one recipient: it is claimed, or it costs no try and is at most skipped. -/
theorem claim_cases (h : d.Lawful) (read : Broadcast) (budget : Nat) (env : BatchEnv)
    {r : Recipient} (hr : r ∈ d.recipients) :
    let r' := if r.id ∈ (selected env.now (claimAllowance read d.recipients env.now budget)
        d.recipients).map (·.id) then r.claim env.now (claimDecision (env.facts r.id)) else r
    (r.id ∈ (d.batchOf read budget env).map (·.id) ∧ r' = r.claim env.now .send ∧
        r.status = .queued) ∨
      (r.id ∉ (d.batchOf read budget env).map (·.id) ∧ r'.attempts = r.attempts ∧
        (r'.status = r.status ∨ r'.status = .skipped)) := by
  have hsame : ∀ r₂ ∈ d.recipients, r₂.id = r.id → r₂ = r := fun r₂ h₂ hid =>
    List.inj_on_of_nodup_map h.ids h₂ hr hid
  intro r'
  by_cases hbatch : r.id ∈ (d.batchOf read budget env).map (·.id)
  · obtain ⟨r₂, h₂, hid⟩ := List.mem_map.1 hbatch
    obtain ⟨hmem, hclaimable, hsel, hsend⟩ := mem_claimed h₂
    obtain rfl := hsame r₂ hmem hid
    refine .inl ⟨hbatch, ?_, ?_⟩
    · simp only [r', if_pos (List.mem_map_of_mem (f := (·.id)) hsel), hsend]
    · simp only [Recipient.claimable, Bool.and_eq_true, decide_eq_true_eq] at hclaimable
      exact hclaimable.1.1
  · refine .inr ⟨hbatch, ?_⟩
    by_cases hsel : r.id ∈ (selected env.now (claimAllowance read d.recipients env.now budget)
        d.recipients).map (·.id)
    · obtain ⟨r₂, h₂, hid⟩ := List.mem_map.1 hsel
      obtain rfl := hsame r₂ (List.mem_filter.1 (List.mem_of_mem_take h₂)).1 hid
      have hdecision : claimDecision (env.facts r₂.id) ≠ .send := by
        intro hsend
        exact hbatch (List.mem_map_of_mem (f := (·.id))
          (List.mem_filter.2 ⟨h₂, by simpa using hsend⟩))
      simp only [r', if_pos hsel]
      cases hd : claimDecision (env.facts r₂.id) with
      | hold _ => exact ⟨rfl, .inl rfl⟩
      | skip _ => exact ⟨rfl, .inr rfl⟩
      | send => exact absurd hd hdecision
    · simp only [r', if_neg hsel, true_or, and_self]

private theorem pending_claim (t : ℕ) (read : Broadcast) (budget : Nat) (env : BatchEnv)
    (x : Nat) : (d.claim t read budget env).pending x =
      d.pending x + ((d.batchOf read budget env).map (·.id)).count x := by
  simp only [pending, BroadcastDesk.claim, List.map_append, List.map_map, List.count_append]
  rfl

variable {t : ℕ}

/-- **Claiming a batch** keeps the invariant. -/
theorem Lawful.claim {read : Broadcast} {budget : Nat} {env : BatchEnv} (h : d.Lawful) :
    (d.claim t read budget env).Lawful := by
  have hnodup := batchOf_ids_nodup h read budget env
  have hids : (d.claim t read budget env).recipients.map (·.id) = d.recipients.map (·.id) :=
    (afterClaim_keeps env.facts env.now _).map_id _
  have hterm : (d.claim t read budget env).broadcast.status = d.broadcast.status := by
    dsimp only [BroadcastDesk.claim]
    split <;> rfl
  have hof : ∀ x, x ∈ (d.batchOf read budget env).map (·.id) →
      ∃ r ∈ d.recipients, r.id = x ∧ r.attempts < MAX_BROADCAST_SEND_ATTEMPTS := by
    intro x hx
    obtain ⟨r, hr, rfl⟩ := List.mem_map.1 hx
    have hmem := (mem_claimed hr).1
    rcases claim_cases h read budget env hmem with ⟨-, -, hq⟩ | ⟨hnot, -⟩
    · exact ⟨r, hmem, rfl, (h.tries r hmem).2 hq⟩
    · exact absurd hx hnot
  refine ⟨hids ▸ h.ids, ?_, ?_, ?_, ?_, ?_, ?_, ?_⟩
  · intro r' hr'
    have hmem : r'.id ∈ d.recipients.map (·.id) := hids ▸ List.mem_map_of_mem (f := (·.id)) hr'
    obtain ⟨r, hr, hid⟩ := List.mem_map.1 hmem
    exact hid ▸ h.fresh r hr
  · intro r' hr'
    obtain ⟨r, hr, rfl⟩ := List.mem_map.1 hr'
    rcases claim_cases h read budget env hr with ⟨-, heq, hq⟩ | ⟨-, hatt, hst⟩
    · rw [heq]
      exact ⟨(h.tries r hr).2 hq, nofun⟩
    · rw [hatt]
      refine ⟨(h.tries r hr).1, fun hq => ?_⟩
      rcases hst with hst | hst
      · exact (h.tries r hr).2 (hst.symm.trans hq)
      · cases hst.symm.trans hq
  · intro r' hr'
    obtain ⟨r, hr, rfl⟩ := List.mem_map.1 hr'
    have hcounted := h.counted r hr
    rw [pending_claim, (afterClaim_keeps env.facts env.now _ r).1]
    have hle := List.nodup_iff_count_le_one.1 hnodup r.id
    rcases claim_cases h read budget env hr with ⟨-, heq, -⟩ | ⟨hnot, hatt, -⟩
    · rw [heq]
      change d.handed r.id + _ ≤ r.attempts + 1
      omega
    · rw [hatt, List.count_eq_zero_of_not_mem hnot]
      exact hcounted
  · intro x
    rw [pending_claim]
    have hle := List.nodup_iff_count_le_one.1 hnodup x
    by_cases hx : x ∈ (d.batchOf read budget env).map (·.id)
    · obtain ⟨r, hr, rfl, hlt⟩ := hof x hx
      have := h.counted r hr
      change d.handed r.id + _ ≤ _
      omega
    · rw [List.count_eq_zero_of_not_mem hx]
      exact h.bounded x
  · intro x hx
    rw [pending_claim, List.count_eq_zero_of_not_mem]
    · exact h.unborn x hx
    · intro hmem
      obtain ⟨r, hr, rfl, -⟩ := hof x hmem
      exact absurd (h.fresh r hr) (Nat.not_lt.2 hx)
  · intro hended r' hr'
    obtain ⟨r, hr, rfl⟩ := List.mem_map.1 hr'
    have hnq := h.closed (hterm ▸ hended) r hr
    rcases claim_cases h read budget env hr with ⟨-, -, hq⟩ | ⟨-, -, hst⟩
    · exact absurd hq hnq
    · rcases hst with hst | hst
      · exact fun hq => hnq (hst.symm.trans hq)
      · exact fun hq => by cases hst.symm.trans hq
  · intro r' hr' hsending
    obtain ⟨r, hr, rfl⟩ := List.mem_map.1 hr'
    rw [(afterClaim_keeps env.facts env.now _ r).1]
    rcases claim_cases h read budget env hr with ⟨hbatch, -, -⟩ | ⟨-, -, hst⟩
    · obtain ⟨r₂, h₂, hid⟩ := List.mem_map.1 hbatch
      refine ⟨t, .inl (List.mem_append_right _ ?_)⟩
      exact List.mem_map.2 ⟨r₂, h₂, by rw [hid]⟩
    · rcases hst with hst | hst
      · obtain ⟨u, hu⟩ := h.flight r hr (hst.symm.trans hsending)
        exact ⟨u, hu.imp_left (List.mem_append_left _)⟩
      · cases hst.symm.trans hsending

/-! ### Handing a batch over -/

/-- **Handing over a batch** keeps the invariant, if the batch is what its session has claimed. -/
theorem Lawful.hand {batch : List BroadcastMessage} (h : d.Lawful)
    (hbatch : (d.ready.filter (·.1 = t)).map (·.2) = batch.map (·.recipient)) :
    (d.hand t batch).Lawful := by
  have hsplit : ∀ x, d.pending x =
      (batch.map (·.recipient)).count x + (d.hand t batch).pending x := by
    intro x
    have hperm := (List.filter_append_perm (fun e : ℕ × Nat => decide (e.1 = t)) d.ready).map (·.2)
    rw [pending, ← hperm.count_eq, List.map_append, List.count_append, hbatch]
    simp only [pending, BroadcastDesk.hand, decide_not]
  have htotal : ∀ x, (d.hand t batch).handed x + (d.hand t batch).pending x =
      d.handed x + d.pending x := by
    intro x
    have hhanded : (d.hand t batch).handed x =
        d.handed x + (batch.map (·.recipient)).count x := by
      simp only [handed, BroadcastDesk.hand, List.map_append, List.count_append]
    rw [hhanded, hsplit x]
    omega
  refine ⟨h.ids, h.fresh, h.tries, ?_, ?_, ?_, h.closed, ?_⟩
  · intro r hr
    rw [htotal]
    exact h.counted r hr
  · intro x
    rw [htotal]
    exact h.bounded x
  · intro x hx
    rw [htotal]
    exact h.unborn x hx
  · intro r hr hsending
    obtain ⟨u, hready | hout⟩ := h.flight r hr hsending
    · by_cases hu : u = t
      · subst hu
        have hmem : r.id ∈ batch.map (·.recipient) := by
          rw [← hbatch]
          exact List.mem_map.2 ⟨_, List.mem_filter.2 ⟨hready, decide_eq_true rfl⟩, rfl⟩
        obtain ⟨m, hm, hid⟩ := List.mem_map.1 hmem
        refine ⟨u, .inr (List.mem_append_right _ ?_)⟩
        exact List.mem_map.2 ⟨m, hm, by rw [hid]⟩
      · exact ⟨u, .inl (List.mem_filter.2 ⟨hready, by simpa using hu⟩)⟩
    · exact ⟨u, .inr (List.mem_append_left _ hout)⟩

/-! ### Recording a batch -/

private theorem recorded_attempts (now : Instant) (results : List BulkEmailResult)
    (r : Recipient) : (r.recorded now results).attempts = r.attempts := by
  induction results generalizing r with
  | nil => rfl
  | cons result results ih =>
    refine (ih _).trans ?_
    dsimp only
    split
    · cases result.outcome <;> rfl
    · rfl

/-- What the results of a batch do to the status of a recipient: nothing if they do not name it,
else it is sent, failed or, if it has a try left and some delivery failed, queued. -/
theorem recorded_status (now : Instant) (results : List BulkEmailResult) (r : Recipient) :
    ((r.recorded now results).status = r.status ∧ r.id ∉ results.map (·.key)) ∨
      (r.recorded now results).status = .sent ∨ (r.recorded now results).status = .failed ∨
      ((r.recorded now results).status = .queued ∧ requeues results r) := by
  induction results using List.reverseRec with
  | nil => exact .inl ⟨rfl, List.not_mem_nil⟩
  | append_singleton results result ih =>
    have hstep : r.recorded now (results ++ [result]) =
        if r.id = result.key then (r.recorded now results).record now result.outcome
        else r.recorded now results := by
      rw [Recipient.recorded, List.foldl_append]
      exact if_congr (by rw [← (Recipient.recorded_keeps now results r).1]; rfl) rfl rfl
    have hmono : requeues results r → requeues (results ++ [result]) r := by
      rintro ⟨hlt, e, he, hkey⟩
      exact ⟨hlt, e, List.mem_append_left _ he, hkey⟩
    rw [hstep]
    by_cases hkey : r.id = result.key
    · rw [if_pos hkey]
      cases hout : result.outcome with
      | ok messageId => exact .inr (.inl rfl)
      | error error =>
        dsimp only [Recipient.record]
        rw [recorded_attempts]
        split
        · exact .inr (.inr (.inl rfl))
        · rename_i hlt
          refine .inr (.inr (.inr ⟨rfl, Nat.lt_of_not_le hlt, result, ?_, hkey.symm, ?_⟩))
          · exact List.mem_append_right _ (List.mem_singleton_self _)
          · rw [hout]
            rfl
    · rw [if_neg hkey]
      rcases ih with ⟨hst, hnot⟩ | hst | hst | ⟨hst, hre⟩
      · refine .inl ⟨hst, ?_⟩
        rw [List.map_append, List.mem_append, not_or]
        exact ⟨hnot, fun hmem => hkey (List.mem_singleton.1 hmem)⟩
      · exact .inr (.inl hst)
      · exact .inr (.inr (.inl hst))
      · exact .inr (.inr (.inr ⟨hst, hmono hre⟩))

/-- **Recording a batch** keeps the invariant, if it names whoever its session has out and puts
nobody back on a broadcast that has ended. -/
theorem Lawful.record {results : List BulkEmailResult} {now : Instant} (h : d.Lawful)
    (hkeys : ∀ x, (t, x) ∈ d.out → x ∈ results.map (·.key))
    (hopen : ∀ r ∈ d.recipients, requeues results r → d.broadcast.status.terminal = false) :
    ({ d with
        recipients := Munin.record now d.recipients results
        out := d.out.filter (·.1 ≠ t) } : BroadcastDesk).Lawful := by
  have hid : ∀ r : Recipient, (r.recorded now results).id = r.id := fun r =>
    (Recipient.recorded_keeps now results r).1
  rw [record_eq_map]
  refine ⟨?_, ?_, ?_, ?_, h.bounded, h.unborn, fun hterm => ?_, ?_⟩
  · exact ((Recipient.recorded_keeps now results).map_id d.recipients).symm ▸ h.ids
  all_goals
    intro r' hr'
    obtain ⟨r, hr, rfl⟩ := List.mem_map.1 hr'
  · rw [hid]
    exact h.fresh r hr
  · rw [recorded_attempts]
    refine ⟨(h.tries r hr).1, fun hq => ?_⟩
    rcases recorded_status now results r with ⟨hst, -⟩ | hst | hst | ⟨-, hlt, -⟩
    · exact (h.tries r hr).2 (hst.symm.trans hq)
    · cases hst.symm.trans hq
    · cases hst.symm.trans hq
    · exact hlt
  · rw [hid, recorded_attempts]
    exact h.counted r hr
  · intro hq
    rcases recorded_status now results r with ⟨hst, -⟩ | hst | hst | ⟨-, hre⟩
    · exact h.closed hterm r hr (hst.symm.trans hq)
    · cases hst.symm.trans hq
    · cases hst.symm.trans hq
    · cases hterm.symm.trans (hopen r hr hre)
  · intro hsending
    rw [hid]
    rcases recorded_status now results r with ⟨hst, hnot⟩ | hst | hst | ⟨hst, -⟩
    · obtain ⟨u, hready | hout⟩ := h.flight r hr (hst.symm.trans hsending)
      · exact ⟨u, .inl hready⟩
      · have hu : u ≠ t := by
          rintro rfl
          exact hnot (hkeys _ hout)
        exact ⟨u, .inr (List.mem_filter.2 ⟨hout, by simpa using hu⟩)⟩
    · cases hst.symm.trans hsending
    · cases hst.symm.trans hsending
    · cases hst.symm.trans hsending

end BroadcastDesk

end Munin
