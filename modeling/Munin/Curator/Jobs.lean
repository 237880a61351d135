import Mathlib.Algebra.Group.Int.Defs
import Munin.Common
import Munin.Foundations.Instant
import Munin.Foundations.Machine

/-!
# Curator jobs

A curator job is a piece of work for an agent. Workers claim jobs that are due, each for the time of
a lease, and report back with `ack` or `fail`; a job that is not reported on is due again when its
lease has run out.

* **`CuratorJob`** — the row.
* **`claimed`, `acked`, `failed`** — what the operations make of it.
* **`JobMove`, `jobMachine`** — the statements of any number of workers, one after the other.
  `claim` and `ack` are one statement each; `fail` reads the row and writes it later.
* **`JobEvent`** — what happened, for the laws: who claimed what until when, who reported, and which
  attempts were given back.

The checks of `enqueue` that look elsewhere, and the redaction of errors, are parameters. The sweep
of `AgentHealthService`, which puts refunded jobs back to pending, is left out.
-/

namespace Munin

open Foundations

/-- `CURATOR_JOB_STATUSES`. -/
inductive CuratorJobStatus where
  | pending
  | done
  | failed
  | dead
  | failedRetryable
  deriving DecidableEq

/-- Whether a job is through with. -/
def CuratorJobStatus.terminal : CuratorJobStatus → Bool
  | .done | .failed | .dead => true
  | .pending | .failedRetryable => false

/-- A row of `curator_jobs`. -/
structure CuratorJob where
  id : String
  orgId : String
  jobUri : String
  userPrompt : String
  dedupeKey : Option String := none
  status : CuratorJobStatus := .pending
  priority : Nat := 0
  attempts : Nat := 0
  maxAttempts : Nat := 5
  nextAttemptAt : Instant
  leaseExpiresAt : Option Instant := none
  leaseHolder : Option String := none
  lastError : Option String := none
  lastErrorCode : Option String := none
  failedStep : Option String := none
  lastReplyText : Option String := none
  lastToolCalls : Option Nat := none
  lastTotalTokens : Option Nat := none
  doneAt : Option Instant := none

/-- `EnqueueInput`. -/
structure EnqueueInput where
  jobUri : String
  userPrompt : String
  dedupeKey : Option String := none
  maxAttempts : Option Nat := none
  delaySeconds : Option Nat := none
  priority : Option Nat := none

/-- `AckInput`. -/
structure AckInput where
  id : String
  replyText : Option String := none
  toolCalls : Option Nat := none
  totalTokens : Option Nat := none

/-- `FailInput`. -/
structure FailInput where
  id : String
  error : String
  retryable : Option Bool := none
  code : Option String := none
  failedStep : Option String := none

/-- What the operations ask of other code. -/
structure JobFacts where
  /-- `KNOWN_SKILL_URIS`. -/
  knownSkill : String → Bool := fun _ => true
  /-- `assertWebScrapeUrlIsPublic`: the message of the error, if it throws. -/
  webScrapeError : String → Option String := fun _ => none
  priorityFor : String → Nat := fun _ => 0
  redactQueryParams : String → String := id

def WEB_SCRAPE_SITE_TASK_URI : String := "task://web/scrape-website"

def KNOWN_TASK_URIS : List String := [WEB_SCRAPE_SITE_TASK_URI]

def BACKOFF_BASE_MS : Int := 30000

/-! ### The operations on a row -/

/-- Why `enqueue` refuses its input, if it does. -/
def enqueueError (facts : JobFacts) (input : EnqueueInput) : Option String :=
  if jsStartsWith input.jobUri "skill://" && !facts.knownSkill input.jobUri then
    some ("unknown jobUri " ++ input.jobUri)
  else if jsStartsWith input.jobUri "task://" && input.jobUri ∉ KNOWN_TASK_URIS then
    some ("unknown jobUri " ++ input.jobUri)
  else if !jsStartsWith input.jobUri "skill://" && !jsStartsWith input.jobUri "task://" then
    some "jobUri must start with skill:// or task://"
  else if isBlank input.userPrompt then some "userPrompt is required"
  else if input.jobUri = WEB_SCRAPE_SITE_TASK_URI then facts.webScrapeError input.userPrompt
  else none

/-- The row that `enqueue` inserts. -/
def newJob (facts : JobFacts) (id orgId : String) (now : Instant) (input : EnqueueInput) :
    CuratorJob where
  id := id
  orgId := orgId
  jobUri := input.jobUri
  userPrompt := input.userPrompt
  dedupeKey := input.dedupeKey
  priority := input.priority.getD (facts.priorityFor input.jobUri)
  maxAttempts := input.maxAttempts.getD 5
  nextAttemptAt := now + input.delaySeconds.getD 0 * 1000

namespace CuratorJob

variable (job : CuratorJob)

/-- The unique index `curator_jobs_dedupe_uq`: two pending jobs of one key. -/
def clashes (other : CuratorJob) : Bool :=
  job.dedupeKey.isSome && job.status = .pending && other.status = .pending &&
    other.orgId = job.orgId && other.dedupeKey = job.dedupeKey

/-- Whether `claim` may take the job. -/
def due (orgId : String) (now : Instant) : Bool :=
  job.orgId = orgId && job.status = .pending && job.nextAttemptAt ≤ now &&
    job.leaseExpiresAt.all (· < now)

/-- `ORDER BY priority DESC, next_attempt_at ASC`. -/
def precedes (other : CuratorJob) : Bool :=
  other.priority < job.priority ||
    (other.priority = job.priority && job.nextAttemptAt < other.nextAttemptAt)

/-- The job, claimed. -/
def claimed (holder : String) (until' : Instant) : CuratorJob :=
  { job with
    leaseExpiresAt := some until'
    leaseHolder := some holder
    attempts := job.attempts + 1 }

/-- The job, acknowledged. -/
def acked (now : Instant) (input : AckInput) : CuratorJob :=
  { job with
    status := .done
    leaseExpiresAt := none
    leaseHolder := none
    lastError := none
    lastReplyText := input.replyText
    lastToolCalls := input.toolCalls
    lastTotalTokens := input.totalTokens
    doneAt := some now }

/-- The job after `releaseStaleLeases`. -/
def released (orgId : String) (now : Instant) : CuratorJob :=
  if job.orgId = orgId && job.status = .pending && job.leaseExpiresAt.all (· ≤ now) then
    { job with leaseExpiresAt := none, leaseHolder := none }
  else job

end CuratorJob

namespace FailInput

variable (input : FailInput) (current : CuratorJob)

/-- The status that `fail` gives to a job that it read. -/
def status : CuratorJobStatus :=
  if input.retryable = some false then .failed
  else if input.code.any (jsStartsWith · "provider_") then .failedRetryable
  else if current.maxAttempts ≤ current.attempts then .dead
  else .pending

/-- The attempts that `fail` leaves to a job that it read: one fewer after an outage. -/
def attempts : Nat :=
  if input.status current = .failedRetryable then current.attempts - 1 else current.attempts

end FailInput

/-- The least value of `jitteredBackoffMs`; the greatest is twice that. -/
def backoffBase (attempts : Nat) : Int := BACKOFF_BASE_MS * 2 ^ (attempts - 1)

/-- The job as `fail` writes it, with what it read before. -/
def CuratorJob.failed (job : CuratorJob) (facts : JobFacts) (input : FailInput)
    (current : CuratorJob) (now backoffMs : Int) : CuratorJob :=
  { job with
    status := input.status current
    attempts := input.attempts current
    nextAttemptAt :=
      if input.status current = .pending then now + backoffMs else current.nextAttemptAt
    leaseExpiresAt := none
    leaseHolder := none
    lastError := some (jsTake 4000 (facts.redactQueryParams input.error))
    lastErrorCode := input.code
    failedStep := input.failedStep }

/-! ### The statements of the workers -/

/-- What happened to a job. -/
inductive JobEvent where
  | claimed (id holder : String) (until' : Instant)
  | reported (id worker : String)
  | refunded (id : String)

/-- Whether it is a claim of a job. -/
def JobEvent.isClaim (id : String) : JobEvent → Bool
  | .claimed claimedId _ _ => claimedId = id
  | .reported .. | .refunded _ => false

/-- Whether it gives an attempt of a job back. -/
def JobEvent.isRefund (id : String) : JobEvent → Bool
  | .refunded refundedId => refundedId = id
  | .claimed .. | .reported .. => false

/-- A call of `fail` that has read its job. -/
structure FailCall where
  worker : String
  input : FailInput
  current : CuratorJob

/-- The jobs, the calls of `fail` under way, and what happened, the latest first. -/
structure JobsState where
  clock : Instant := 0
  rows : List CuratorJob := []
  calls : Nat → Option FailCall := fun _ => none
  history : List JobEvent := []

namespace JobsState

variable (s : JobsState)

/-- A job by its id. -/
def job (id : String) : Option CuratorJob := s.rows.find? (·.id = id)

/-- How often a job was claimed. -/
def claims (id : String) : Nat :=
  s.history.countP (·.isClaim id)

/-- How often an attempt of a job was given back. -/
def refunds (id : String) : Nat :=
  s.history.countP (·.isRefund id)

/-- Who claimed a job last. -/
def lastHolder (id : String) : Option String :=
  s.history.findSome? fun
    | .claimed claimedId holder _ => if claimedId = id then some holder else none
    | _ => none

end JobsState

/-- A statement, with what the world decides: the clock, the row locks that others hold, the order
of equal rows, new ids and chance. -/
inductive JobMove where
  | enqueue (now : Instant) (id orgId : String) (input : EnqueueInput)
  | claim (now : Instant) (orgId holder : String) (limit leaseSeconds : Option Nat)
    (locked picked : List String)
  | ack (now : Instant) (worker : String) (input : AckInput)
  | readFail (call : Nat) (worker : String) (input : FailInput)
  | writeFail (call : Nat) (now backoffMs : Int)
  | releaseStaleLeases (now : Instant) (orgId : String)

/-- A job that is due is not taken, as the limit is reached with jobs that it does not precede. -/
def PassedOver (rows : List CuratorJob) (limit : Nat) (picked : List String) (job : CuratorJob) :
    Prop :=
  picked.length = limit ∧ ∀ other ∈ rows, other.id ∈ picked → job.precedes other = false

instance (rows : List CuratorJob) (limit : Nat) (picked : List String) (job : CuratorJob) :
    Decidable (PassedOver rows limit picked job) := by
  unfold PassedOver
  infer_instance

/-- `claim` takes the jobs `picked`: due ones that nobody has locked, the first of the order, as
many as the limit admits. -/
def Picks (rows : List CuratorJob) (orgId : String) (now : Instant) (limit : Nat)
    (locked picked : List String) : Prop :=
  picked.Nodup ∧ picked.length ≤ limit ∧
    (∀ id ∈ picked, id ∉ locked ∧ rows.any fun job => job.id = id && job.due orgId now) ∧
    ∀ job ∈ rows, job.due orgId now = true → job.id ∉ locked → job.id ∉ picked →
      PassedOver rows limit picked job

instance (rows : List CuratorJob) (orgId : String) (now : Instant) (limit : Nat)
    (locked picked : List String) : Decidable (Picks rows orgId now limit locked picked) := by
  unfold Picks
  infer_instance

/-- The rows, with one changed. -/
def updateJob (rows : List CuratorJob) (id : String) (f : CuratorJob → CuratorJob) :
    List CuratorJob :=
  rows.map fun job => if job.id = id then f job else job

/-- One statement. Requests that are refused change nothing and are no steps. -/
def JobsState.step (facts : JobFacts) (s : JobsState) : JobMove → Option JobsState
  | .enqueue now id orgId input =>
    let job := newJob facts id orgId now input
    if s.clock ≤ now ∧ (s.job id).isNone ∧ input.maxAttempts.all (1 ≤ ·) ∧
        enqueueError facts input = none ∧ s.rows.all (!job.clashes ·) then
      some { s with clock := now, rows := s.rows ++ [job] }
    else none
  | .claim now orgId holder limit leaseSeconds locked picked =>
    let leaseUntil := now + (max 30 (min (leaseSeconds.getD 600) 3600) : Nat) * 1000
    if s.clock ≤ now ∧ Picks s.rows orgId now (max 1 (min (limit.getD 1) 25)) locked picked then
      some { s with
        clock := now
        rows := s.rows.map fun job =>
          if job.id ∈ picked then job.claimed holder leaseUntil else job
        history := picked.map (.claimed · holder leaseUntil) ++ s.history }
    else none
  | .ack now worker input =>
    if s.clock ≤ now ∧ (s.job input.id).isSome then
      some { s with
        clock := now
        rows := updateJob s.rows input.id (·.acked now input)
        history := .reported input.id worker :: s.history }
    else none
  | .readFail call worker input =>
    if (s.calls call).isNone then
      (s.job input.id).map fun current =>
        { s with calls := fun c => if c = call then some ⟨worker, input, current⟩ else s.calls c }
    else none
  | .writeFail call now backoffMs =>
    match s.calls call with
    | none => none
    | some ⟨worker, input, current⟩ =>
      let ended : JobsState :=
        { s with clock := now, calls := fun c => if c = call then none else s.calls c }
      let write := fun job : CuratorJob => job.failed facts input current now backoffMs
      if s.clock ≤ now ∧ backoffBase current.attempts ≤ backoffMs ∧
          backoffMs ≤ 2 * backoffBase current.attempts then
        -- a write that the unique index refuses ends the request without effect
        if s.rows.any fun job => job.id = input.id &&
            s.rows.any fun other => other.id ≠ job.id && (write job).clashes other then
          some ended
        else
          some { ended with
            rows := updateJob s.rows input.id write
            history := .reported input.id worker ::
              (if input.status current = .failedRetryable ∧ 0 < current.attempts then
                .refunded input.id :: s.history else s.history) }
      else none
  | .releaseStaleLeases now orgId =>
    if s.clock ≤ now then
      some { s with clock := now, rows := s.rows.map (·.released orgId now) }
    else none

/-- The workers and their jobs. -/
def jobMachine (facts : JobFacts) : Machine JobsState JobMove := ⟨JobsState.step facts⟩

/-- No jobs yet. -/
def JobsState.Empty (s : JobsState) : Prop :=
  s.rows = [] ∧ s.calls = (fun _ => none) ∧ s.history = []

/-! ### What the statements keep -/

section Keeps

variable (job : CuratorJob)

@[simp]
theorem CuratorJob.acked_id (now : Instant) (input : AckInput) :
    (job.acked now input).id = job.id := rfl

@[simp]
theorem CuratorJob.failed_id (facts : JobFacts) (input : FailInput) (current : CuratorJob)
    (now backoffMs : Int) : (job.failed facts input current now backoffMs).id = job.id := rfl

theorem CuratorJob.released_cases (orgId : String) (now : Instant) :
    job.released orgId now = job ∨
      (job.status = .pending ∧ job.orgId = orgId ∧ (∀ u, job.leaseExpiresAt = some u → u ≤ now) ∧
        job.released orgId now = { job with leaseExpiresAt := none, leaseHolder := none }) := by
  unfold released
  split
  · rename_i h
    simp only [Bool.and_eq_true, decide_eq_true_eq, Option.all_eq_true_iff_get] at h
    refine .inr ⟨h.1.2, h.1.1, fun u hu => ?_, rfl⟩
    simpa [hu] using h.2
  · exact .inl rfl

@[simp]
theorem CuratorJob.released_id (orgId : String) (now : Instant) :
    (job.released orgId now).id = job.id := by
  unfold released
  split <;> rfl

/-- Changed rows keep their ids apart. -/
theorem nodup_ids_map {rows : List CuratorJob} {f : CuratorJob → CuratorJob}
    (hids : (rows.map (·.id)).Nodup) (hid : ∀ job, (f job).id = job.id) :
    ((rows.map f).map (·.id)).Nodup := by
  have hsame : (rows.map f).map (·.id) = rows.map (·.id) := by
    rw [List.map_map]
    exact List.map_congr_left fun job _ => hid job
  rw [hsame]
  exact hids

/-- An id that no row has is new to the rows. -/
theorem nodup_ids_append {rows : List CuratorJob} {new : CuratorJob}
    (hids : (rows.map (·.id)).Nodup) (hnew : ∀ job ∈ rows, job.id ≠ new.id) :
    ((rows ++ [new]).map (·.id)).Nodup := by
  rw [List.map_append, List.nodup_append]
  refine ⟨hids, List.pairwise_singleton _ _, fun x hx y hy heq => ?_⟩
  obtain ⟨job, hjob, rfl⟩ := List.mem_map.1 hx
  exact hnew job hjob (heq.trans (List.mem_singleton.1 hy))

theorem id_ne_of_isNone {s : JobsState} {id : String} (h : (s.job id).isNone = true) :
    ∀ job ∈ s.rows, job.id ≠ id := by
  rw [JobsState.job, Option.isNone_iff_eq_none, List.find?_eq_none] at h
  simpa using h

/-- What a claim takes is due. -/
theorem exists_due {rows : List CuratorJob} {orgId : String} {now : Instant} {limit : Nat}
    {locked picked : List String} (h : Picks rows orgId now limit locked picked) {id : String}
    (hid : id ∈ picked) : ∃ job ∈ rows, job.id = id ∧ job.due orgId now = true := by
  obtain ⟨-, -, hdue, -⟩ := h
  obtain ⟨job, hjob, hmatch⟩ := List.any_eq_true.1 (hdue id hid).2
  rw [Bool.and_eq_true, decide_eq_true_eq] at hmatch
  exact ⟨job, hjob, hmatch⟩

end Keeps

end Munin
