import Munin.Foundations.Machine
import Munin.Foundations.SlidingWindow
import Munin.Outreach.Broadcast

/-!
# The hourly limit of a broadcast

`claimBatch` counts who was sent to in the last hour and takes no more recipients than that leaves
room for; `recordBatch` stamps those whose delivery succeeded, at a later moment.

* **`hourlyMachine`** — one worker that claims a batch, hands it over and records it; a batch may be
  lost before it is recorded, and claims that are stale are given up.
* **`HourlyOk`** — the limit holds, with room for the batch that is out.
* **`hourly_limit`** — the limit in every state reached.
-/

namespace Munin

open Foundations

/-- The recipients, the clock, and the recipients of the batch that is out. -/
structure HourlyState where
  recipients : List Recipient
  clock : Instant := 0
  batch : List Nat := []

/-- The steps of the worker. -/
inductive HourlyStep where
  /-- A batch: the moment at which the last hour is counted, and the one of the writes. -/
  | claimBatch (counted now : Instant) (budget : Nat) (facts : Nat → ClaimFacts)
  | recordBatch (now : Instant) (results : List BulkEmailResult)
  /-- The worker is stopped before it records its batch. -/
  | lose
  | recoverStaleSends (now : Instant)

namespace HourlyState

/-- The times at which recipients were sent to. -/
def sentAts (s : HourlyState) : List Instant :=
  s.recipients.filterMap (·.sentAt)

/-- The effect of a step; the clock does not go back, a batch is claimed when none is out, and its
results are about its recipients. -/
def step (b : Broadcast) (s : HourlyState) : HourlyStep → Option HourlyState
  | .claimBatch counted now budget facts =>
    if s.batch = [] ∧ s.clock ≤ counted ∧ counted ≤ now then
      let allowance := claimAllowance b s.recipients counted budget
      some {
        recipients := afterClaim facts now allowance s.recipients
        clock := now
        batch := (claimed facts now allowance s.recipients).map (·.id) }
    else none
  | .recordBatch now results =>
    if s.clock ≤ now ∧ ∀ result ∈ results, result.key ∈ s.batch then
      some { recipients := record now s.recipients results, clock := now, batch := [] }
    else none
  | .lose => some { s with batch := [] }
  | .recoverStaleSends now =>
    if s.clock ≤ now then
      some { s with recipients := s.recipients.map (·.recover now), clock := now }
    else none

/-- The recipients of an approved broadcast: nobody was sent to. -/
def Unsent (s : HourlyState) : Prop :=
  (s.recipients.map (·.id)).Nodup ∧ (∀ r ∈ s.recipients, r.sentAt = none) ∧ s.batch = []

end HourlyState

/-- The worker of a broadcast. -/
def hourlyMachine (b : Broadcast) : Machine HourlyState HourlyStep where
  step := HourlyState.step b

/-- The width of the window, in milliseconds. -/
def HOUR_MS : Int := 60 * 60 * 1000

/-! ### What the steps do to the stamps -/

/-- A claim stamps nobody. -/
theorem claim_sentAt (r : Recipient) (now : Instant) (decision : ClaimDecision) :
    (r.claim now decision).sentAt = r.sentAt := by
  cases decision <;> rfl

theorem sentAts_afterClaim (facts : Nat → ClaimFacts) (now : Instant) (allowance : Nat)
    (recipients : List Recipient) :
    (afterClaim facts now allowance recipients).filterMap (·.sentAt) =
      recipients.filterMap (·.sentAt) := by
  rw [afterClaim, List.filterMap_map]
  refine congrArg (fun f => recipients.filterMap f) (funext fun r => ?_)
  dsimp only [Function.comp]
  split
  · exact claim_sentAt r now _
  · rfl

/-- Giving up a stale claim stamps nobody. -/
theorem recover_sentAt (r : Recipient) (now : Instant) : (r.recover now).sentAt = r.sentAt := by
  unfold Recipient.recover
  split <;> rfl

theorem sentAts_recover (now : Instant) (recipients : List Recipient) :
    (recipients.map (·.recover now)).filterMap (·.sentAt) = recipients.filterMap (·.sentAt) := by
  rw [List.filterMap_map]
  exact congrArg (fun f => recipients.filterMap f) (funext fun r => recover_sentAt r now)

/-- Whether some delivery to the recipient succeeded. -/
def Recipient.delivered (results : List BulkEmailResult) (r : Recipient) : Bool :=
  results.any fun result => result.key = r.id && result.outcome.isOk

/-- The stamp of a recipient after a batch is recorded. -/
theorem recorded_sentAt (now : Instant) (results : List BulkEmailResult) (r : Recipient) :
    (r.recorded now results).sentAt =
      if r.delivered results then some now else r.sentAt := by
  induction results generalizing r with
  | nil => rfl
  | cons result results ih =>
    have hstep : r.recorded now (result :: results) =
        (if r.id = result.key then r.record now result.outcome else r).recorded now results := rfl
    have hdelivered : ∀ q : Recipient, q.id = r.id → q.delivered results = r.delivered results := by
      intro q hq
      rw [Recipient.delivered, hq]
      rfl
    have hcons : r.delivered (result :: results) =
        (decide (result.key = r.id) && result.outcome.isOk || r.delivered results) := rfl
    rw [hstep, hcons]
    by_cases hkey : r.id = result.key
    · rw [if_pos hkey, ih, hdelivered _ (Recipient.record_keeps now result.outcome r).1]
      cases hout : result.outcome with
      | ok messageId => simp [hkey, Except.isOk, Except.toBool, Recipient.record]
      | error error => simp [Except.isOk, Except.toBool, Recipient.record]
    · rw [if_neg hkey, ih]
      simp [Ne.symm hkey]

/-- **The stamps after a batch is recorded**: at most as many more as the batch has recipients. -/
theorem countP_record {recipients : List Recipient} (hids : (recipients.map (·.id)).Nodup)
    (now : Instant) {results : List BulkEmailResult} {batch : List Nat}
    (hkeys : ∀ result ∈ results, result.key ∈ batch) :
    ∃ n ≤ batch.length, ∀ p : ℤ → Bool,
      ((record now recipients results).filterMap (·.sentAt)).countP p ≤
        (recipients.filterMap (·.sentAt)).countP p + if p now then n else 0 := by
  refine ⟨recipients.countP (·.delivered results), ?_, fun p => ?_⟩
  · -- Whoever was delivered to is in the batch, and each id is there once.
    have hsub : (recipients.filter (·.delivered results)).map (·.id) ⊆ batch := by
      intro x hx
      obtain ⟨r, hr, rfl⟩ := List.mem_map.1 hx
      obtain ⟨result, hresult, hkey⟩ := List.any_eq_true.1 (List.mem_filter.1 hr).2
      simp only [Bool.and_eq_true, decide_eq_true_eq] at hkey
      exact hkey.1 ▸ hkeys result hresult
    have hnodup : ((recipients.filter (·.delivered results)).map (·.id)).Nodup :=
      hids.sublist (List.filter_sublist.map _)
    rw [List.countP_eq_length_filter, ← List.length_map (f := (·.id))]
    exact hnodup.length_le_of_subset hsub
  · rw [record_eq_map, List.filterMap_map]
    refine countP_restamp (fun r : Recipient => r.delivered results) (fun r _ hnot => ?_)
      (fun r _ hdelivered => ?_) p
    · simp [recorded_sentAt, hnot]
    · simp [recorded_sentAt, hdelivered]

/-! ### The invariant -/

/-- The limit holds, and leaves room for the batch that is out. -/
structure HourlyOk (k : Nat) (s : HourlyState) : Prop where
  ids : (s.recipients.map (·.id)).Nodup
  limited : Limited HOUR_MS k s.sentAts
  room : s.batch = [] ∨ ∃ counted ≤ s.clock,
    countSince s.sentAts (counted - HOUR_MS) + s.batch.length ≤ k

section

variable {b : Broadcast} {k : Nat}

/-- **What a claim leaves room for.** -/
theorem claimAllowance_room (hmax : b.maxPerHour = some k) (hk : k ≠ 0)
    (recipients : List Recipient) (counted : Instant) (budget : Nat) :
    claimAllowance b recipients counted budget ≤
      k - countSince (recipients.filterMap (·.sentAt)) (counted - HOUR_MS) := by
  have hcount : countSince (recipients.filterMap (·.sentAt)) (counted - HOUR_MS) =
      (recipients.filter fun r => r.sentAt.any fun t =>
        decide (counted - 60 * 60 * 1000 ≤ t)).length := by
    rw [countSince, List.countP_filterMap, List.countP_eq_length_filter]
    congr 2
    funext r
    cases r.sentAt <;> rfl
  rw [hcount]
  unfold claimAllowance
  rw [hmax]
  split
  · rename_i hnone
    cases hnone
  · rename_i hzero
    exact absurd (Option.some.inj hzero) hk
  · rename_i heq
    rw [Option.some.inj heq]
    exact min_le_right _ _

theorem length_claimed_le (facts : Nat → ClaimFacts) (now : Instant) (allowance : Nat)
    (recipients : List Recipient) :
    (claimed facts now allowance recipients).length ≤ allowance := by
  refine (List.length_filter_le _ _).trans ?_
  rw [selected, List.length_take]
  exact min_le_left _ _

/-- **One step** keeps the limit. -/
theorem HourlyOk.step (hmax : b.maxPerHour = some k) (hk : k ≠ 0) {s t : HourlyState}
    {a : HourlyStep} (hs : HourlyOk k s) (h : (hourlyMachine b).step s a = some t) :
    HourlyOk k t := by
  change HourlyState.step b s a = some t at h
  cases a with
  | claimBatch counted now budget facts =>
    simp only [HourlyState.step] at h
    split at h
    · rename_i hclaim
      obtain ⟨-, -, hle⟩ := hclaim
      obtain rfl := Option.some.inj h
      have hsame : HourlyState.sentAts ⟨afterClaim facts now
          (claimAllowance b s.recipients counted budget) s.recipients, now,
          (claimed facts now (claimAllowance b s.recipients counted budget)
            s.recipients).map (·.id)⟩ = s.sentAts := sentAts_afterClaim ..
      refine ⟨?_, hsame.symm ▸ hs.limited, ?_⟩
      · exact ((afterClaim_keeps facts now _).map_id s.recipients).symm ▸ hs.ids
      · rw [hsame, List.length_map]
        have hroom := claimAllowance_room hmax hk s.recipients counted budget
        have hlength := length_claimed_le facts now (claimAllowance b s.recipients counted budget)
          s.recipients
        rcases Nat.eq_zero_or_pos (claimed facts now
          (claimAllowance b s.recipients counted budget) s.recipients).length with hzero | hpos
        · exact .inl (by rw [List.length_eq_zero_iff.1 hzero, List.map_nil])
        · refine .inr ⟨counted, hle, ?_⟩
          unfold HourlyState.sentAts
          omega
    · cases h
  | recordBatch now results =>
    simp only [HourlyState.step] at h
    split at h
    · rename_i hrecord
      obtain ⟨hclock, hkeys⟩ := hrecord
      obtain rfl := Option.some.inj h
      obtain ⟨n, hn, hcount⟩ := countP_record hs.ids now hkeys
      refine ⟨?_, ?_, .inl rfl⟩
      · rw [record_eq_map]
        exact ((Recipient.recorded_keeps now results).map_id s.recipients).symm ▸ hs.ids
      · rcases hs.room with hnone | ⟨counted, hcounted, hroom⟩
        · have hzero : n = 0 := by
            rw [hnone] at hn
            exact Nat.le_zero.1 hn
          exact hs.limited.stamp hcount (.inl hzero) (le_refl now)
        · have hfits : countSince s.sentAts (counted - HOUR_MS) + n ≤ k := by omega
          exact hs.limited.stamp hcount (.inr hfits) (hcounted.trans hclock)
    · cases h
  | lose =>
    obtain rfl := Option.some.inj h
    exact ⟨hs.ids, hs.limited, .inl rfl⟩
  | recoverStaleSends now =>
    simp only [HourlyState.step] at h
    split at h
    · rename_i hclock
      obtain rfl := Option.some.inj h
      have hsame : HourlyState.sentAts ⟨s.recipients.map (·.recover now), now, s.batch⟩ =
          s.sentAts := sentAts_recover ..
      refine ⟨?_, hsame.symm ▸ hs.limited, ?_⟩
      · exact ((Recipient.recover_keeps now).map_id s.recipients).symm ▸ hs.ids
      · rw [hsame]
        rcases hs.room with hnone | ⟨counted, hcounted, hroom⟩
        · exact .inl hnone
        · exact .inr ⟨counted, hcounted.trans hclock, hroom⟩
    · cases h

end

/-- **The hourly limit.** However batches are claimed, recorded, lost and given up, no hour has more
recipients sent to in it than the broadcast's `maxPerHour`. -/
theorem hourly_limit {b : Broadcast} {k : Nat} (hmax : b.maxPerHour = some k) (hk : k ≠ 0)
    {s : HourlyState} (h : (hourlyMachine b).Reachable HourlyState.Unsent s) :
    Limited HOUR_MS k s.sentAts := by
  have hok : HourlyOk k s := by
    refine h.invariant (I := HourlyOk k) (fun s hs => ?_)
      fun s t a _ hs _ hstep => hs.step hmax hk hstep
    obtain ⟨hids, hunsent, hbatch⟩ := hs
    have hnone : s.sentAts = [] := by
      rw [HourlyState.sentAts, List.filterMap_eq_nil_iff]
      exact hunsent
    exact ⟨hids, hnone.symm ▸ limited_nil HOUR_MS k, .inl hbatch⟩
  exact hok.limited

/-- A broadcast of one email an hour. -/
def slowBroadcast : Broadcast where
  id := "b1"
  name := "news"
  segmentId := "s1"
  channelId := "ch1"
  subject := "News"
  body := "Hello"
  status := .sending
  maxPerHour := some 1

/-- Two recipients, of which each batch finds nothing to hold back or skip. -/
def slowStart : HourlyState where
  recipients := [{ id := 0, contactId := some "1", address := "a@x.test" },
    { id := 1, contactId := some "2", address := "b@x.test" }]

/-- Three batches: the first one fails, the second sends to a recipient, and the third one, within
the hour, finds no room. -/
def slowRun : List HourlyStep :=
  let facts : Nat → ClaimFacts := fun _ => { contact := some { consentLawfulBasis := some "c" } }
  [.claimBatch 0 1 10 facts, .recordBatch 2 [⟨0, .error "timeout"⟩],
    .claimBatch 3 4 10 facts, .recordBatch 1000 [⟨0, .ok "m1"⟩],
    .claimBatch 3600000 3600001 10 facts, .recordBatch 3600002 []]

theorem hourly_limit_sample :
    ((hourlyMachine slowBroadcast).run slowStart slowRun).map (·.sentAts) = some [1000] ∧
      ∀ s, (hourlyMachine slowBroadcast).run slowStart slowRun = some s →
        Limited HOUR_MS 1 s.sentAts := by
  have hstart : slowStart.Unsent := ⟨by decide, by decide, rfl⟩
  have hmax : slowBroadcast.maxPerHour = some 1 := rfl
  refine ⟨by decide, fun s hrun => ?_⟩
  exact hourly_limit hmax (by decide) (Machine.reachable_of_run hstart hrun)

end Munin
