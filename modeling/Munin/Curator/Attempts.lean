import Munin.Curator.Jobs
import Mathlib.Data.List.Nodup

/-!
# How often a curator job is claimed

A job has `maxAttempts` attempts. `claim` counts an attempt, `fail` gives it back if the provider
was out, and ends a job whose attempts are used up. Only `fail` compares the attempts with their
bound: `claim` takes any pending job whose lease has run out.

* **`LastAttemptReported`** — no job whose attempts are used up loses its lease without a report,
  and no claim comes between the two statements of a `fail`.
* **`AttemptsOk`** — the invariant: claims are attempts and refunds, and a job that is free has
  attempts left.
* **`attempts_bounded`** — in runs that meet the condition, the bound holds.
* **`claimed_beyond_bound`** — a worker that dies on the last attempt is followed by another one.
-/

namespace Munin

open Foundations

/-- A lease that runs out on a job without a report, as the job is claimed again or released, is not
that of its last attempt; and `fail` writes a job with the attempts that it read. -/
def LastAttemptReported (s : JobsState) : JobMove → Prop
  | .claim _ _ _ _ _ _ picked => ∀ job ∈ s.rows, job.id ∈ picked → job.leaseExpiresAt ≠ none →
      job.attempts < job.maxAttempts
  | .releaseStaleLeases now orgId => ∀ job ∈ s.rows, job.orgId = orgId → job.status = .pending →
      job.leaseExpiresAt.any (· ≤ now) = true → job.attempts < job.maxAttempts
  | .writeFail call _ _ => ∀ c ∈ s.calls call, ∀ job ∈ s.rows, job.id = c.input.id →
      job.attempts = c.current.attempts
  | _ => True

instance (s : JobsState) : ∀ a, Decidable (LastAttemptReported s a)
  | .claim .. => inferInstanceAs (Decidable (∀ job ∈ s.rows, _))
  | .releaseStaleLeases .. => inferInstanceAs (Decidable (∀ job ∈ s.rows, _))
  | .writeFail call _ _ => inferInstanceAs (Decidable (∀ c ∈ s.calls call, _))
  | .enqueue .. | .ack .. | .readFail .. => inferInstanceAs (Decidable True)

/-- The bound on the claims of a job: it holds, and a job that has come to it is through with or
still out on its last attempt. -/
def AttemptsBounded (s : JobsState) (job : CuratorJob) : Prop :=
  s.claims job.id ≤ job.maxAttempts + s.refunds job.id ∧
    (s.claims job.id = job.maxAttempts + s.refunds job.id →
      job.status.terminal = true ∨ job.leaseExpiresAt ≠ none)

/-! ### The invariant -/

/-- The attempts of a job count its claims, and a job that nobody has been given has some left. -/
structure JobOk (s : JobsState) (job : CuratorJob) : Prop where
  positive : 1 ≤ job.maxAttempts
  counted : job.attempts + s.refunds job.id = s.claims job.id
  bounded : job.attempts ≤ job.maxAttempts
  free : job.status.terminal = false → job.leaseExpiresAt = none → job.attempts < job.maxAttempts

/-- **The invariant of claims.** Each job is as it should, and what a `fail` has read is a job. -/
structure AttemptsOk (s : JobsState) : Prop where
  ids : (s.rows.map (·.id)).Nodup
  jobs : ∀ job ∈ s.rows, JobOk s job
  calls : ∀ call c, s.calls call = some c →
    ∃ job ∈ s.rows, job.id = c.input.id ∧ job.maxAttempts = c.current.maxAttempts
  unknown : ∀ id, (∀ job ∈ s.rows, job.id ≠ id) → s.claims id = 0 ∧ s.refunds id = 0

section Steps

variable {s : JobsState}

variable {t : JobsState}

variable {job : CuratorJob} {picked : List String}

/-- A job is as it should as long as what happened to it stays the same. -/
theorem JobOk.congr (h : JobOk s job) (hclaims : t.claims job.id = s.claims job.id)
    (hrefunds : t.refunds job.id = s.refunds job.id) : JobOk t job := by
  have hcounted := h.counted
  rw [← hclaims, ← hrefunds] at hcounted
  exact ⟨h.positive, hcounted, h.bounded, h.free⟩

/-- The invariant carries over to rows that are the old ones with some fields changed, if the jobs
stay as they should. -/
theorem AttemptsOk.map (hs : AttemptsOk s) {f : CuratorJob → CuratorJob}
    (hrows : t.rows = s.rows.map f) (hid : ∀ job, (f job).id = job.id)
    (hmax : ∀ job, (f job).maxAttempts = job.maxAttempts)
    (hjobs : ∀ job ∈ s.rows, JobOk s job → JobOk t (f job))
    (hcalls : ∀ call c, t.calls call = some c → s.calls call = some c)
    (hunknown : ∀ id, (∀ job ∈ s.rows, job.id ≠ id) →
      t.claims id = s.claims id ∧ t.refunds id = s.refunds id) : AttemptsOk t := by
  refine ⟨?_, ?_, ?_, ?_⟩
  · rw [hrows]
    exact nodup_ids_map hs.ids hid
  · intro job hjob
    rw [hrows] at hjob
    obtain ⟨old, hold, rfl⟩ := List.mem_map.1 hjob
    exact hjobs old hold (hs.jobs old hold)
  · intro call c hc
    obtain ⟨job, hjob, heq, hsame⟩ := hs.calls call c (hcalls call c hc)
    refine ⟨f job, ?_, (hid job).trans heq, (hmax job).trans hsame⟩
    rw [hrows]
    exact List.mem_map_of_mem hjob
  · intro id hid'
    have hnone : ∀ job ∈ s.rows, job.id ≠ id := by
      intro job hjob heq
      refine hid' (f job) ?_ (by rw [hid, heq])
      rw [hrows]
      exact List.mem_map_of_mem hjob
    obtain ⟨hclaims, hrefunds⟩ := hunknown id hnone
    rw [hclaims, hrefunds]
    exact hs.unknown id hnone

/-- A claim counts once for each job that it takes. -/
theorem countP_isClaim (h : picked.Nodup) (holder id : String) (until' : Instant) :
    (picked.map (JobEvent.claimed · holder until')).countP (·.isClaim id) =
      if id ∈ picked then 1 else 0 := by
  have hcount : (picked.map (JobEvent.claimed · holder until')).countP (·.isClaim id) =
      picked.count id := by
    rw [List.countP_map, List.count_eq_countP]
    exact List.countP_congr fun x _ => by simp [JobEvent.isClaim]
  rw [hcount]
  exact h.count

/-- Claims give no attempts back. -/
theorem countP_isRefund (picked : List String) (holder id : String) (until' : Instant) :
    (picked.map (JobEvent.claimed · holder until')).countP (·.isRefund id) = 0 := by
  rw [List.countP_eq_zero]
  intro e he
  obtain ⟨x, -, rfl⟩ := List.mem_map.1 he
  simp [JobEvent.isRefund]

/-- **A claim** takes jobs that have attempts left. -/
theorem AttemptsOk.claim (hs : AttemptsOk s) {now leaseUntil : Instant} {orgId holder : String}
    {limit : Nat} {locked : List String} (hpicks : Picks s.rows orgId now limit locked picked)
    (hreported : ∀ job ∈ s.rows, job.id ∈ picked → job.leaseExpiresAt ≠ none →
      job.attempts < job.maxAttempts)
    (hrows : t.rows = s.rows.map fun job =>
      if job.id ∈ picked then job.claimed holder leaseUntil else job)
    (hcalls : t.calls = s.calls)
    (hhistory : t.history = picked.map (.claimed · holder leaseUntil) ++ s.history) :
    AttemptsOk t := by
  have hnodup := hpicks.1
  have hclaims : ∀ id, t.claims id = (if id ∈ picked then 1 else 0) + s.claims id := by
    intro id
    rw [JobsState.claims, hhistory, List.countP_append, countP_isClaim hnodup, JobsState.claims]
  have hrefunds : ∀ id, t.refunds id = s.refunds id := by
    intro id
    rw [JobsState.refunds, hhistory, List.countP_append, countP_isRefund, Nat.zero_add,
      JobsState.refunds]
  refine hs.map hrows (fun job => ?_) (fun job => ?_) (fun job hjob hok => ?_)
    (fun _ _ h => hcalls ▸ h) fun id hnone => ⟨?_, hrefunds id⟩
  · split <;> rfl
  · split <;> rfl
  · have hid : (if job.id ∈ picked then job.claimed holder leaseUntil else job).id = job.id := by
      split <;> rfl
    by_cases hpicked : job.id ∈ picked
    · -- the job that is due under this id is this one
      obtain ⟨other, hother, hotherId, hotherDue⟩ := exists_due hpicks hpicked
      obtain rfl := List.inj_on_of_nodup_map hs.ids hother hjob hotherId
      have hpending : other.status = .pending := by
        simp only [CuratorJob.due, Bool.and_eq_true, decide_eq_true_eq] at hotherDue
        exact hotherDue.1.1.2
      have hleft : other.attempts < other.maxAttempts := by
        by_cases hlease : other.leaseExpiresAt = none
        · exact hok.free (by rw [hpending]; rfl) hlease
        · exact hreported other hjob hpicked hlease
      have hcounted := hok.counted
      refine ⟨?_, ?_, ?_, ?_⟩
      · rw [if_pos hpicked]
        exact hok.positive
      · rw [hid, hclaims, hrefunds, if_pos hpicked, if_pos hpicked]
        simp only [CuratorJob.claimed]
        omega
      · rw [if_pos hpicked]
        exact hleft
      · rw [if_pos hpicked]
        intro _ hlease
        cases hlease
    · have hcounted := hok.counted
      refine ⟨?_, ?_, ?_, ?_⟩
      · rw [if_neg hpicked]
        exact hok.positive
      · rw [hid, hclaims, hrefunds, if_neg hpicked, if_neg hpicked, Nat.zero_add]
        exact hcounted
      · rw [if_neg hpicked]
        exact hok.bounded
      · rw [if_neg hpicked]
        exact hok.free
  · have hnot : id ∉ picked := by
      intro hmem
      obtain ⟨job, hjob, heq, -⟩ := exists_due hpicks hmem
      exact hnone job hjob heq
    rw [hclaims, if_neg hnot, Nat.zero_add]

/-- **A failure** leaves a job that is due again with attempts to spare. -/
theorem JobOk.failed {facts : JobFacts} {input : FailInput} {current : CuratorJob}
    {now backoffMs : Int} {worker : String} (hok : JobOk s job)
    (hread : job.attempts = current.attempts) (hmax : current.maxAttempts = job.maxAttempts)
    (hjob : job.id = input.id) (hhistory : t.history = .reported input.id worker ::
      (if input.status current = .failedRetryable ∧ 0 < current.attempts then
        .refunded input.id :: s.history else s.history)) :
    JobOk t (job.failed facts input current now backoffMs) := by
  have hclaims : t.claims job.id = s.claims job.id := by
    rw [JobsState.claims, hhistory, JobsState.claims]
    split <;> simp [JobEvent.isClaim]
  have hrefunds : t.refunds job.id = s.refunds job.id +
      if input.status current = .failedRetryable ∧ 0 < current.attempts then 1 else 0 := by
    rw [JobsState.refunds, hhistory, JobsState.refunds, hjob]
    split <;> simp [JobEvent.isRefund]
  have hcounted := hok.counted
  have hbounded := hok.bounded
  have hpositive := hok.positive
  refine ⟨hok.positive, ?_, ?_, ?_⟩
  · rw [CuratorJob.failed_id, hclaims, hrefunds]
    simp only [CuratorJob.failed, FailInput.attempts]
    by_cases hretry : input.status current = .failedRetryable
    · by_cases hsome : 0 < current.attempts
      · rw [if_pos hretry, if_pos ⟨hretry, hsome⟩]
        omega
      · rw [if_pos hretry, if_neg fun h => hsome h.2]
        omega
    · rw [if_neg hretry, if_neg fun h => hretry h.1]
      omega
  · simp only [CuratorJob.failed, FailInput.attempts]
    split <;> omega
  · intro hopen _
    simp only [CuratorJob.failed, FailInput.attempts] at hopen ⊢
    by_cases hretry : input.status current = .failedRetryable
    · rw [if_pos hretry]
      omega
    · rw [if_neg hretry]
      unfold FailInput.status at hopen hretry
      split at hopen
      · cases hopen
      · split at hopen
        · rename_i hprovider
          simp_all
        · split at hopen
          · cases hopen
          · omega

/-- **One statement** that meets the condition keeps the invariant. -/
theorem AttemptsOk.step {facts : JobFacts} (hs : AttemptsOk s) {a : JobMove}
    (hok : LastAttemptReported s a) (h : (jobMachine facts).step s a = some t) : AttemptsOk t := by
  change JobsState.step facts s a = some t at h
  cases a with
  | enqueue now id orgId input =>
    simp only [JobsState.step] at h
    split at h
    · rename_i henqueue
      obtain ⟨-, hfresh, hmax, -, -⟩ := henqueue
      obtain rfl := Option.some.inj h
      have hnew : ∀ job ∈ s.rows, job.id ≠ id := id_ne_of_isNone hfresh
      -- A new id: no claim and no refund of it is on the record.
      obtain ⟨hclaims, hrefunds⟩ := hs.unknown id hnew
      refine ⟨?_, ?_, ?_, ?_⟩
      · exact nodup_ids_append hs.ids hnew
      · intro job hjob
        rcases List.mem_append.1 hjob with hold | hold
        · exact (hs.jobs job hold).congr rfl rfl
        · obtain rfl := List.mem_singleton.1 hold
          have hpositive : 1 ≤ input.maxAttempts.getD 5 := by
            cases hgiven : input.maxAttempts with
            | none => decide
            | some n => simpa [hgiven] using hmax
          refine ⟨hpositive, ?_, Nat.zero_le _, fun _ _ => hpositive⟩
          exact (Nat.zero_add _).trans (hrefunds.trans hclaims.symm)
      · intro call c hc
        obtain ⟨job, hjob, hsame⟩ := hs.calls call c hc
        exact ⟨job, List.mem_append_left _ hjob, hsame⟩
      · intro other hother
        exact hs.unknown other fun job hjob => hother job (List.mem_append_left _ hjob)
    · cases h
  | claim now orgId holder limit leaseSeconds locked picked =>
    simp only [JobsState.step] at h
    split at h
    · rename_i hclaim
      obtain rfl := Option.some.inj h
      exact hs.claim hclaim.2 hok rfl rfl rfl
    · cases h
  | ack now worker input =>
    simp only [JobsState.step] at h
    split at h
    · obtain rfl := Option.some.inj h
      refine hs.map rfl (fun job => ?_) (fun job => ?_) (fun job _ hjob => ?_) (fun _ _ hc => hc)
        fun id _ => ⟨?_, ?_⟩
      · split <;> rfl
      · split <;> rfl
      · by_cases hid : job.id = input.id
        · rw [if_pos hid]
          refine JobOk.congr ⟨hjob.positive, hjob.counted, hjob.bounded, fun hopen => ?_⟩ ?_ ?_
          · cases hopen
          · simp [JobsState.claims, JobEvent.isClaim]
          · simp [JobsState.refunds, JobEvent.isRefund]
        · rw [if_neg hid]
          refine hjob.congr ?_ ?_
          · simp [JobsState.claims, JobEvent.isClaim]
          · simp [JobsState.refunds, JobEvent.isRefund]
      · simp [JobsState.claims, JobEvent.isClaim]
      · simp [JobsState.refunds, JobEvent.isRefund]
    · cases h
  | readFail call worker input =>
    simp only [JobsState.step] at h
    split at h
    · obtain ⟨current, hcurrent, rfl⟩ := Option.map_eq_some_iff.1 h
      have hfound : current ∈ s.rows ∧ current.id = input.id := by
        have hid := List.find?_some hcurrent
        exact ⟨List.mem_of_find?_eq_some hcurrent, by simpa using hid⟩
      refine ⟨hs.ids, fun job hjob => (hs.jobs job hjob).congr rfl rfl, fun c d hd => ?_,
        hs.unknown⟩
      · by_cases hc : c = call
        · simp only [hc, if_true, Option.some.injEq] at hd
          subst hd
          exact ⟨current, hfound.1, hfound.2, rfl⟩
        · simp only [hc, if_false] at hd
          exact hs.calls c d hd
    · cases h
  | writeFail call now backoffMs =>
    simp only [JobsState.step] at h
    split at h
    · cases h
    · rename_i worker input current hcall
      have hcalls : ∀ c d, (if c = call then none else s.calls c) = some d →
          s.calls c = some d := by
        intro c d hd
        split at hd
        · cases hd
        · exact hd
      obtain ⟨read, hread, hreadId, hmax⟩ := hs.calls call _ hcall
      split at h
      · split at h
        · obtain rfl := Option.some.inj h
          exact ⟨hs.ids, fun job hjob => (hs.jobs job hjob).congr rfl rfl,
            fun c d hd => hs.calls c d (hcalls c d hd), hs.unknown⟩
        · obtain rfl := Option.some.inj h
          refine hs.map rfl (fun job => ?_) (fun job => ?_) (fun job hjob hold => ?_) hcalls
            fun id hnone => ?_
          · split <;> rfl
          · split <;> rfl
          · by_cases heq : job.id = input.id
            -- Ids are unique: the row written is the one whose bound was read.
            · obtain rfl := List.inj_on_of_nodup_map hs.ids hread hjob (hreadId.trans heq.symm)
              rw [if_pos heq]
              exact hold.failed (hok _ hcall read hjob heq) hmax.symm heq rfl
            · rw [if_neg heq]
              refine hold.congr ?_ ?_
              · rw [JobsState.claims, JobsState.claims]
                split <;> simp [JobEvent.isClaim]
              · rw [JobsState.refunds, JobsState.refunds]
                split <;> simp [JobEvent.isRefund, Ne.symm heq]
          · have hother : input.id ≠ id := fun heq => hnone read hread (hreadId.trans heq)
            constructor
            · rw [JobsState.claims, JobsState.claims]
              split <;> simp [JobEvent.isClaim]
            · rw [JobsState.refunds, JobsState.refunds]
              split <;> simp [JobEvent.isRefund, hother]
      · cases h
  | releaseStaleLeases now orgId =>
    simp only [JobsState.step] at h
    split at h
    · obtain rfl := Option.some.inj h
      refine hs.map rfl (fun job => job.released_id orgId now) (fun job => ?_)
        (fun job hjob hold => ?_) (fun _ _ hc => hc) fun id _ => ⟨rfl, rfl⟩
      · rcases job.released_cases orgId now with heq | ⟨-, -, -, heq⟩ <;> rw [heq]
      · rcases job.released_cases orgId now with heq | ⟨hpending, horg, hpast, heq⟩
        · rw [heq]
          exact hold.congr rfl rfl
        · rw [heq]
          refine JobOk.congr ⟨hold.positive, hold.counted, hold.bounded, fun hopen _ => ?_⟩
            rfl rfl
          cases hlease : job.leaseExpiresAt with
          | none => exact hold.free hopen hlease
          | some u =>
            refine hok job hjob horg hpending ?_
            simpa [hlease] using hpast u hlease
    · cases h

end Steps

/-- The invariant holds in every run that meets the condition. -/
theorem attemptsOk_of_reaches (facts : JobFacts) {s : JobsState}
    (h : (jobMachine facts).Reaches JobsState.Empty LastAttemptReported s) : AttemptsOk s := by
  refine h.invariant (I := AttemptsOk) (fun s hempty => ?_) fun s t a _ hs hok hstep =>
    hs.step hok hstep
  obtain ⟨hrows, hcalls, hhistory⟩ := hempty
  refine ⟨?_, ?_, ?_, fun id _ => ⟨?_, ?_⟩⟩
  · rw [hrows]
    exact List.nodup_nil
  · rw [hrows]
    exact fun job hjob => by cases hjob
  · rw [hcalls]
    exact fun _ _ hc => by cases hc
  · rw [JobsState.claims, hhistory, List.countP_nil]
  · rw [JobsState.refunds, hhistory, List.countP_nil]

/-- **No job is claimed more often than it may be**, but for the attempts that outages gave back, in
a run in which no job loses the lease of its last attempt without a report; and a job that has come
to the bound is through with, or out on its last attempt. -/
theorem attempts_bounded (facts : JobFacts) {s : JobsState}
    (h : (jobMachine facts).Reaches JobsState.Empty LastAttemptReported s) :
    ∀ job ∈ s.rows, AttemptsBounded s job := by
  intro job hjob
  obtain ⟨-, hcounted, hbounded, hfree⟩ := (attemptsOk_of_reaches facts h).jobs job hjob
  refine ⟨by omega, fun hfull => ?_⟩
  by_contra hopen
  rw [not_or, not_not, Bool.not_eq_true] at hopen
  have hleft := hfree hopen.1 hopen.2
  omega

/-! ### A worker that dies -/

/-- A job with one attempt is claimed, and again after the lease has run out. -/
def deadWorker : List JobMove :=
  [.enqueue 0 "j" "org"
      { jobUri := "skill://kb/curate", userPrompt := "go", maxAttempts := some 1 },
    .claim 0 "org" "a" none none [] ["j"], .claim 600001 "org" "b" none none [] ["j"]]

/-- **The bound fails** if nobody reports the last attempt. -/
theorem claimed_beyond_bound : ∃ s, (jobMachine {}).Reachable JobsState.Empty s ∧
    ∃ job ∈ s.rows, job.maxAttempts = 1 ∧ s.claims job.id = 2 ∧ s.refunds job.id = 0 ∧
      ¬ AttemptsBounded s job := by
  obtain ⟨s, hs⟩ := Option.isSome_iff_exists.1
    (show ((jobMachine {}).run {} deadWorker).isSome = true by decide +kernel)
  have hview : ((jobMachine {}).run {} deadWorker).map (fun s =>
      s.rows.map fun job => (job.maxAttempts, s.claims job.id, s.refunds job.id)) =
      some [(1, 2, 0)] := by decide +kernel
  rw [hs, Option.map_some, Option.some.injEq] at hview
  obtain ⟨job, hjob, heq⟩ := List.mem_map.1 (hview ▸ List.mem_singleton_self (1, 2, 0))
  simp only [Prod.mk.injEq] at heq
  obtain ⟨hmax, hclaims, hrefunds⟩ := heq
  refine ⟨s, Machine.reachable_of_run ⟨rfl, rfl, rfl⟩ hs, job, hjob, hmax, hclaims, hrefunds, ?_⟩
  rintro ⟨hbounded, -⟩
  omega

/-- The job is claimed, and its worker reports in time. -/
def reportedInTime : List JobMove :=
  [.enqueue 0 "j" "org"
      { jobUri := "skill://kb/curate", userPrompt := "go", maxAttempts := some 1 },
    .claim 0 "org" "a" none none [] ["j"], .readFail 0 "a" { id := "j", error := "no" },
    .writeFail 0 10 30000]

/-- A job whose worker reports in time is claimed once. -/
theorem attempts_bounded_sample :
    ∃ s, (jobMachine {}).Reaches JobsState.Empty LastAttemptReported s ∧
      s.rows.map (fun job => (job.status, s.claims job.id)) = [(.dead, 1)] ∧
        ∀ job ∈ s.rows, AttemptsBounded s job := by
  have hrun : ((jobMachine {}).runUnder LastAttemptReported {} reportedInTime).map (fun s =>
      s.rows.map fun job => (job.status, s.claims job.id)) = some [(.dead, 1)] := by
    decide +kernel
  obtain ⟨s, hs, hview⟩ := Machine.exists_reaches_of_runUnder
    (show JobsState.Empty {} from ⟨rfl, rfl, rfl⟩) hrun
  exact ⟨s, hs, hview, attempts_bounded {} hs⟩

end Munin
