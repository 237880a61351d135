import Munin.Curator.Jobs
import Mathlib.Algebra.Order.Group.Int
import Mathlib.Data.List.Nodup

/-!
# The leases of curator jobs

A claimed job is leased to its worker until the lease runs out. `ack` and `fail` find their job by
its id alone: neither looks at who holds it or whether it is through with.

* **`openLeases`** — the leases given out that their workers have not reported on.
* **`LeaseLaw`** — what a statement should keep: one lease at a time, no effect of a report by a
  worker whose job another has taken over, and statuses that stay once they are final.
* **`HolderReports`** — a report comes from the worker that claimed the job last, before the job is
  through with.
* **`lease_law`** — in runs that meet the condition, every statement keeps the law.
* **`late_report_counts`** — a worker that is late ends the job of the one that took over.
-/

namespace Munin

open Foundations

/-- A lease, as its worker knows it. -/
structure Lease where
  id : String
  holder : String
  until' : Instant
  deriving DecidableEq

/-- The leases that were given out and not reported on, the latest first. -/
def openLeases : List JobEvent → List Lease
  | [] => []
  | .claimed id holder until' :: es => ⟨id, holder, until'⟩ :: openLeases es
  | .reported id worker :: es =>
    (openLeases es).filter fun l => !(l.id = id && l.holder = worker)
  | .refunded _ :: es => openLeases es

namespace JobsState

variable (s : JobsState)

/-- The leases of a job that have not run out. -/
def running (id : String) : List Lease :=
  (openLeases s.history).filter fun l => l.id = id && s.clock < l.until'

/-- Another worker has claimed a job since this one did. -/
def TakenOver (worker id : String) : Prop :=
  (∃ l ∈ openLeases s.history, l.id = id ∧ l.holder = worker) ∧
    ∃ holder, s.lastHolder id = some holder ∧ holder ≠ worker

end JobsState

/-- The worker that reports, and its job, if the statement is the one of a report that writes. -/
def JobMove.report (s : JobsState) : JobMove → Option (String × String)
  | .ack _ worker input => some (worker, input.id)
  | .writeFail call _ _ => (s.calls call).map fun c => (c.worker, c.input.id)
  | _ => none

/-- What a statement keeps. -/
structure LeaseLaw (s : JobsState) (a : JobMove) (t : JobsState) : Prop where
  exclusive : ∀ id, (t.running id).length ≤ 1
  stale : ∀ worker id, a.report s = some (worker, id) → s.TakenOver worker id →
    t.job id = s.job id
  final : ∀ id job, s.job id = some job → job.status.terminal = true →
    ∃ job', t.job id = some job' ∧ job'.status = job.status

/-- A report is by the worker that claimed the job last, and the job is not through with; only an
acknowledgement may come twice. -/
def HolderReports (s : JobsState) (a : JobMove) : Prop :=
  ∀ r ∈ a.report s, s.lastHolder r.2 = some r.1 ∧ ∀ job ∈ s.rows, job.id = r.2 →
    job.status.terminal = false ∨ (job.status = .done ∧ (a matches .ack ..))

instance (s : JobsState) (a : JobMove) : Decidable (HolderReports s a) := by
  unfold HolderReports
  infer_instance

/-! ### The invariant -/

/-- **The invariant of leases.** A job has at most one lease that has not run out, and this one is
in its row and was given out last. -/
structure LeasesOk (s : JobsState) : Prop where
  ids : (s.rows.map (·.id)).Nodup
  exclusive : ∀ id, (s.running id).length ≤ 1
  held : ∀ l ∈ openLeases s.history, s.clock < l.until' →
    s.lastHolder l.id = some l.holder ∧ ∃ job ∈ s.rows, job.id = l.id ∧ job.status = .pending ∧
      job.leaseExpiresAt = some l.until'

section Steps

variable {s t : JobsState}

/-- A claim opens a lease on each job that it takes. -/
theorem openLeases_claimed (picked : List String) (holder : String) (until' : Instant)
    (es : List JobEvent) :
    openLeases (picked.map (.claimed · holder until') ++ es) =
      picked.map (⟨·, holder, until'⟩) ++ openLeases es := by
  induction picked with
  | nil => rfl
  | cons id ids ih => exact congrArg (⟨id, holder, until'⟩ :: ·) ih

/-- Who claimed a job last, after a claim. -/
theorem findSome_claimed (picked : List String) (holder id : String) (until' : Instant)
    (es : List JobEvent) {f : JobEvent → Option String}
    (hf : ∀ c, f (.claimed c holder until') = if c = id then some holder else none) :
    (picked.map (JobEvent.claimed · holder until') ++ es).findSome? f =
      if id ∈ picked then some holder else es.findSome? f := by
  induction picked with
  | nil => simp
  | cons c cs ih =>
    rw [List.map_cons, List.cons_append, List.findSome?_cons, hf, ih]
    by_cases hc : c = id
    · simp [hc]
    · simp [hc, Ne.symm hc]

variable {now : Instant} {f : CuratorJob → CuratorJob}

/-- With time, leases run out. -/
theorem length_running_le (hs : LeasesOk s) {history : List JobEvent}
    (hclock : s.clock ≤ now) (hsub : (openLeases history).Sublist (openLeases s.history))
    (id : String) :
    ((openLeases history).filter fun l => l.id = id && now < l.until').length ≤ 1 := by
  refine le_trans (List.Sublist.length_le ?_) (hs.exclusive id)
  refine (hsub.filter _).trans (List.monotone_filter_right _ fun l hl => ?_)
  simp only [Bool.and_eq_true, decide_eq_true_eq] at hl ⊢
  exact ⟨hl.1, lt_of_le_of_lt hclock hl.2⟩

/-- The invariant carries over to rows that are the old ones with some fields changed, and to fewer
leases, if a lease that has not run out stays in its row. -/
theorem LeasesOk.map (hs : LeasesOk s)
    (hrows : t.rows = s.rows.map f) (hid : ∀ job, (f job).id = job.id) (hclock : s.clock ≤ t.clock)
    (hsub : (openLeases t.history).Sublist (openLeases s.history))
    (hheld : ∀ l ∈ openLeases t.history, t.clock < l.until' → s.lastHolder l.id = some l.holder →
      t.lastHolder l.id = some l.holder ∧ ∀ job ∈ s.rows, job.id = l.id → job.status = .pending →
        job.leaseExpiresAt = some l.until' →
          (f job).status = .pending ∧ (f job).leaseExpiresAt = some l.until') : LeasesOk t := by
  refine ⟨?_, length_running_le hs hclock hsub, fun l hl hrunning => ?_⟩
  · rw [hrows]
    exact nodup_ids_map hs.ids hid
  · obtain ⟨hlast, job, hjob, hjobId, hpending, hlease⟩ :=
      hs.held l (hsub.subset hl) (lt_of_le_of_lt hclock hrunning)
    obtain ⟨hlast', hkeep⟩ := hheld l hl hrunning hlast
    obtain ⟨hpending', hlease'⟩ := hkeep job hjob hjobId hpending hlease
    refine ⟨hlast', f job, ?_, (hid job).trans hjobId, hpending', hlease'⟩
    rw [hrows]
    exact List.mem_map_of_mem hjob

/-- A job that is due has no lease that has not run out. -/
theorem LeasesOk.not_running (hs : LeasesOk s) (hclock : s.clock ≤ now)
    {job : CuratorJob} (hjob : job ∈ s.rows) {orgId : String} (hdue : job.due orgId now = true)
    {l : Lease} (hl : l ∈ openLeases s.history) (hid : l.id = job.id) : ¬ now < l.until' := by
  intro hrunning
  obtain ⟨-, other, hother, hotherId, -, hlease⟩ := hs.held l hl (lt_of_le_of_lt hclock hrunning)
  obtain rfl := List.inj_on_of_nodup_map hs.ids hother hjob (hotherId.trans hid)
  simp only [CuratorJob.due, Bool.and_eq_true, hlease, Option.all_some, decide_eq_true_eq] at hdue
  exact lt_asymm hrunning hdue.2

/-- **A claim** gives out leases on jobs that have none. -/
theorem LeasesOk.claim (hs : LeasesOk s) {leaseUntil : Instant} {orgId holder : String}
    {limit : Nat} {locked picked : List String} (hclock : s.clock ≤ t.clock)
    (hpicks : Picks s.rows orgId t.clock limit locked picked)
    (hrows : t.rows = s.rows.map fun job =>
      if job.id ∈ picked then job.claimed holder leaseUntil else job)
    (hhistory : t.history = picked.map (.claimed · holder leaseUntil) ++ s.history) :
    LeasesOk t := by
  -- A job that is picked is due: no lease on it runs any more.
  have hnone : ∀ l ∈ openLeases s.history, l.id ∈ picked → ¬ t.clock < l.until' := by
    intro l hl hmem
    obtain ⟨job, hjob, hid, hdue⟩ := exists_due hpicks hmem
    exact hs.not_running hclock hjob hdue hl hid.symm
  have hopen := openLeases_claimed picked holder leaseUntil s.history
  rw [← hhistory] at hopen
  have hlast : ∀ id, t.lastHolder id = if id ∈ picked then some holder else s.lastHolder id := by
    intro id
    rw [JobsState.lastHolder, hhistory]
    exact findSome_claimed picked holder id leaseUntil s.history fun _ => rfl
  refine ⟨?_, fun id => ?_, fun l hl hrunning => ?_⟩
  · rw [hrows]
    refine nodup_ids_map hs.ids fun job => ?_
    split <;> rfl
  · rw [JobsState.running, hopen, List.filter_append, List.length_append]
    by_cases hpicked : id ∈ picked
    · have hold : ((openLeases s.history).filter fun l => l.id = id && t.clock < l.until') = [] := by
        rw [List.filter_eq_nil_iff]
        intro l hl hmatch
        simp only [Bool.and_eq_true, decide_eq_true_eq] at hmatch
        exact hnone l hl (hmatch.1 ▸ hpicked) hmatch.2
      have hnew : ((picked.map (⟨·, holder, leaseUntil⟩ : String → Lease)).filter fun l =>
          l.id = id && t.clock < l.until').length ≤ picked.count id := by
        rw [← List.countP_eq_length_filter, List.countP_map, List.count_eq_countP]
        refine List.countP_mono_left fun c _ hc => ?_
        simp only [Function.comp_apply, Bool.and_eq_true, decide_eq_true_eq] at hc
        simpa using hc.1
      have hone := List.nodup_iff_count_le_one.1 hpicks.1 id
      rw [hold, List.length_nil]
      exact hnew.trans hone
    · have hnew : ((picked.map (⟨·, holder, leaseUntil⟩ : String → Lease)).filter fun l =>
          l.id = id && t.clock < l.until') = [] := by
        rw [List.filter_eq_nil_iff]
        intro l hl hmatch
        obtain ⟨c, hc, rfl⟩ := List.mem_map.1 hl
        simp only [Bool.and_eq_true, decide_eq_true_eq] at hmatch
        exact hpicked (hmatch.1 ▸ hc)
      rw [hnew, List.length_nil, Nat.zero_add]
      exact length_running_le hs hclock (List.Sublist.refl _) id
  · rw [hopen, List.mem_append] at hl
    rw [hlast, hrows]
    rcases hl with hl | hl
    · obtain ⟨c, hc, rfl⟩ := List.mem_map.1 hl
      obtain ⟨job, hjob, rfl, hdue⟩ := exists_due hpicks hc
      have hpending : job.status = .pending := by
        simp only [CuratorJob.due, Bool.and_eq_true, decide_eq_true_eq] at hdue
        exact hdue.1.1.2
      refine ⟨if_pos hc, job.claimed holder leaseUntil, ?_, rfl, hpending, rfl⟩
      exact List.mem_map.2 ⟨job, hjob, if_pos hc⟩
    · have hnot : l.id ∉ picked := fun hmem => hnone l hl hmem hrunning
      obtain ⟨hheld, job, hjob, hid, hpending, hlease⟩ :=
        hs.held l hl (lt_of_le_of_lt hclock hrunning)
      rw [if_neg hnot]
      refine ⟨hheld, job, List.mem_map.2 ⟨job, hjob, if_neg ?_⟩, hid, hpending, hlease⟩
      rw [hid]
      exact hnot

/-- **A report** by the worker that claimed the job last closes its lease. -/
theorem LeasesOk.report (hs : LeasesOk s) {id worker : String}
    (hid : ∀ job, (f job).id = job.id) (hrows : t.rows = updateJob s.rows id f)
    (hclock : s.clock ≤ t.clock) (hlast : s.lastHolder id = some worker)
    (hopen : openLeases t.history =
      (openLeases s.history).filter fun l => !(l.id = id && l.holder = worker))
    (hholders : ∀ other, t.lastHolder other = s.lastHolder other) : LeasesOk t := by
  refine hs.map hrows (fun job => ?_) hclock ?_ fun l hl _ hheld => ⟨?_, ?_⟩
  · split
    · exact hid job
    · rfl
  · rw [hopen]
    exact List.filter_sublist
  · rw [hholders]
    exact hheld
  · intro job _ hjobId hpending hlease
    have hother : job.id ≠ id := by
      intro heq
      rw [hopen, List.mem_filter] at hl
      have hholder : l.holder = worker := by
        rw [← hjobId, heq, hlast] at hheld
        exact (Option.some.inj hheld).symm
      simp [← hjobId, heq, hholder] at hl
    rw [if_neg hother]
    exact ⟨hpending, hlease⟩

/-- **One statement** that meets the condition keeps the invariant. -/
theorem LeasesOk.step {facts : JobFacts} (hs : LeasesOk s) {a : JobMove} (hok : HolderReports s a)
    (h : (jobMachine facts).step s a = some t) : LeasesOk t := by
  change JobsState.step facts s a = some t at h
  cases a with
  | enqueue now id orgId input =>
    simp only [JobsState.step] at h
    split at h
    · rename_i henqueue
      obtain ⟨hclock, hfresh, -⟩ := henqueue
      obtain rfl := Option.some.inj h
      have hnew : ∀ job ∈ s.rows, job.id ≠ id := id_ne_of_isNone hfresh
      refine ⟨?_, length_running_le hs hclock (List.Sublist.refl _), fun l hl hrunning => ?_⟩
      · exact nodup_ids_append hs.ids hnew
      · obtain ⟨hlast, job, hjob, hkept⟩ := hs.held l hl (lt_of_le_of_lt hclock hrunning)
        exact ⟨hlast, job, List.mem_append_left _ hjob, hkept⟩
    · cases h
  | claim now orgId holder limit leaseSeconds locked picked =>
    simp only [JobsState.step] at h
    split at h
    · rename_i hclaim
      obtain rfl := Option.some.inj h
      exact hs.claim hclaim.1 hclaim.2 rfl rfl
    · cases h
  | ack now worker input =>
    simp only [JobsState.step] at h
    split at h
    · rename_i hack
      obtain rfl := Option.some.inj h
      obtain ⟨hlast, -⟩ := hok (worker, input.id) rfl
      exact hs.report (fun job => job.acked_id now input) rfl hack.1 hlast rfl fun _ => rfl
    · cases h
  | readFail call worker input =>
    simp only [JobsState.step] at h
    split at h
    · obtain ⟨current, -, rfl⟩ := Option.map_eq_some_iff.1 h
      exact ⟨hs.ids, hs.exclusive, hs.held⟩
    · cases h
  | writeFail call now backoffMs =>
    simp only [JobsState.step] at h
    split at h
    · cases h
    · rename_i worker input current hcall
      obtain ⟨hlast, -⟩ := hok (worker, input.id) (by simp [JobMove.report, hcall])
      split at h
      · rename_i hwrite
        split at h
        · obtain rfl := Option.some.inj h
          refine ⟨hs.ids, length_running_le hs hwrite.1 (List.Sublist.refl _),
            fun l hl hrunning => ?_⟩
          exact hs.held l hl (lt_of_le_of_lt hwrite.1 hrunning)
        · obtain rfl := Option.some.inj h
          refine hs.report (fun job => job.failed_id facts input current now backoffMs) rfl
            hwrite.1 hlast ?_ fun other => ?_
          · split <;> rfl
          · rw [JobsState.lastHolder, JobsState.lastHolder]
            split <;> rfl
      · cases h
  | releaseStaleLeases now orgId =>
    simp only [JobsState.step] at h
    split at h
    · rename_i hclock
      obtain rfl := Option.some.inj h
      refine hs.map rfl (fun job => job.released_id orgId now) hclock (List.Sublist.refl _)
        fun l _ hrunning hheld => ⟨hheld, fun job _ _ hpending hlease => ?_⟩
      rcases job.released_cases orgId now with heq | ⟨-, -, hpast, -⟩
      · rw [heq]
        exact ⟨hpending, hlease⟩
      · exact absurd hrunning (not_lt.2 (hpast _ hlease))
    · cases h

end Steps

/-- The invariant holds in every run that meets the condition. -/
theorem leasesOk_of_reaches (facts : JobFacts) {s : JobsState}
    (h : (jobMachine facts).Reaches JobsState.Empty HolderReports s) : LeasesOk s := by
  refine h.invariant (I := LeasesOk) (fun s hempty => ?_) fun s t a _ hs hok hstep =>
    hs.step hok hstep
  obtain ⟨hrows, -, hhistory⟩ := hempty
  refine ⟨?_, fun id => ?_, ?_⟩
  · rw [hrows]
    exact List.nodup_nil
  · rw [JobsState.running, hhistory]
    exact Nat.zero_le _
  · rw [hhistory]
    exact fun l hl => by cases hl

/-! ### Statuses that are final -/

section Final

variable {s t : JobsState}

/-- A job after its row was changed. -/
theorem find_map {rows : List CuratorJob} {f : CuratorJob → CuratorJob}
    (hid : ∀ job, (f job).id = job.id) (id : String) :
    (rows.map f).find? (·.id = id) = (rows.find? (·.id = id)).map f := by
  rw [List.find?_map]
  congr 2
  funext job
  simp [hid]

/-- **One statement** that meets the condition leaves a final status as it is. -/
theorem final_step {facts : JobFacts} {a : JobMove} (hok : HolderReports s a)
    (h : (jobMachine facts).step s a = some t) {id : String} {job : CuratorJob}
    (hjob : s.job id = some job) (hfinal : job.status.terminal = true) :
    ∃ job', t.job id = some job' ∧ job'.status = job.status := by
  change JobsState.step facts s a = some t at h
  have hmem : job ∈ s.rows := List.mem_of_find?_eq_some hjob
  have hjobId : job.id = id := by simpa using List.find?_some hjob
  have hopen : job.status ≠ .pending := by
    intro hpending
    rw [hpending] at hfinal
    cases hfinal
  -- in changed rows, it is enough that this row keeps its status
  have hmap : ∀ f : CuratorJob → CuratorJob, (∀ job, (f job).id = job.id) →
      t.rows = s.rows.map f → (f job).status = job.status →
        ∃ job', t.job id = some job' ∧ job'.status = job.status := by
    intro f hid hrows hstatus
    refine ⟨f job, ?_, hstatus⟩
    rw [JobsState.job, hrows, find_map hid]
    exact congrArg (Option.map f) hjob
  cases a with
  | enqueue now newId orgId input =>
    simp only [JobsState.step] at h
    split at h
    · obtain rfl := Option.some.inj h
      refine ⟨job, ?_, rfl⟩
      rw [JobsState.job, List.find?_append]
      exact congrArg (Option.or · _) hjob
    · cases h
  | claim now orgId holder limit leaseSeconds locked picked =>
    simp only [JobsState.step] at h
    split at h
    · obtain rfl := Option.some.inj h
      refine hmap _ (fun job => ?_) rfl ?_ <;> split <;> rfl
    · cases h
  | ack now worker input =>
    simp only [JobsState.step] at h
    split at h
    · obtain rfl := Option.some.inj h
      refine hmap _ (fun job => ?_) rfl ?_
      · split <;> rfl
      · split
        · rename_i heq
          obtain ⟨-, hreport⟩ := hok (worker, input.id) rfl
          rcases hreport job hmem heq with hnot | ⟨hdone, -⟩
          · rw [hfinal] at hnot
            cases hnot
          · exact hdone.symm
        · rfl
    · cases h
  | readFail call worker input =>
    simp only [JobsState.step] at h
    split at h
    · obtain ⟨current, -, rfl⟩ := Option.map_eq_some_iff.1 h
      exact ⟨job, hjob, rfl⟩
    · cases h
  | writeFail call now backoffMs =>
    simp only [JobsState.step] at h
    split at h
    · cases h
    · rename_i worker input current hcall
      split at h
      · split at h
        · obtain rfl := Option.some.inj h
          exact ⟨job, hjob, rfl⟩
        · obtain rfl := Option.some.inj h
          refine hmap _ (fun job => ?_) rfl ?_
          · split <;> rfl
          · split
            · rename_i heq
              obtain ⟨-, hreport⟩ := hok (worker, input.id) (by simp [JobMove.report, hcall])
              rcases hreport job hmem heq with hnot | ⟨-, hack⟩
              · rw [hfinal] at hnot
                cases hnot
              · cases hack
            · rfl
      · cases h
  | releaseStaleLeases now orgId =>
    simp only [JobsState.step] at h
    split at h
    · obtain rfl := Option.some.inj h
      refine hmap _ (fun job => job.released_id orgId now) rfl ?_
      rcases job.released_cases orgId now with heq | ⟨hpending, -⟩
      · rw [heq]
      · exact absurd hpending hopen
    · cases h

end Final

/-- **The law of leases.** In a run in which only the worker that claimed a job last reports on it,
before it is through with, every statement keeps the law. -/
theorem lease_law (facts : JobFacts) {s t : JobsState} {a : JobMove}
    (h : (jobMachine facts).Reaches JobsState.Empty HolderReports s) (hok : HolderReports s a)
    (hstep : (jobMachine facts).step s a = some t) : LeaseLaw s a t := by
  refine ⟨((leasesOk_of_reaches facts h).step hok hstep).exclusive, ?_, ?_⟩
  · rintro worker id hreport ⟨-, holder, hlast, hother⟩
    obtain ⟨hworker, -⟩ := hok (worker, id) hreport
    rw [hlast] at hworker
    exact absurd (Option.some.inj hworker) hother
  · exact fun id job hjob hfinal => final_step hok hstep hjob hfinal

/-- A job is claimed for half a minute, then by another worker, and then the first one begins to
report. -/
def takenOver : List JobMove :=
  [.enqueue 0 "j" "org" { jobUri := "skill://kb/curate", userPrompt := "go" },
    .claim 0 "org" "a" none (some 30) [] ["j"], .claim 31000 "org" "b" none none [] ["j"],
    .readFail 0 "a" { id := "j", error := "no", retryable := some false }]

/-- **The law fails** with a report that comes late: it ends the job that another worker has. -/
theorem late_report_counts : ∃ s a t, (jobMachine {}).Reachable JobsState.Empty s ∧
    (jobMachine {}).step s a = some t ∧ ¬ LeaseLaw s a t := by
  have hrun : ((jobMachine {}).run {} takenOver).map (fun s =>
      (openLeases s.history, s.lastHolder "j", (JobMove.writeFail 0 32000 60000).report s)) =
      some ([⟨"j", "b", 631000⟩, ⟨"j", "a", 30000⟩], some "b", some ("a", "j")) := by
    decide +kernel
  have hstatus : ((jobMachine {}).run {} takenOver).map (fun s => (s.job "j").map (·.status)) =
      some (some .pending) := by decide +kernel
  have hafter : ((jobMachine {}).run {} (takenOver ++ [.writeFail 0 32000 60000])).map
      (fun t => (t.job "j").map (·.status)) = some (some .failed) := by decide +kernel
  obtain ⟨t, ht, hfailed⟩ := Option.map_eq_some_iff.1 hafter
  obtain ⟨s, hs, hstep⟩ := Machine.run_concat_eq_some _ |>.1 ht
  rw [hs, Option.map_some, Option.some.injEq] at hrun hstatus
  simp only [Prod.mk.injEq] at hrun
  obtain ⟨hopen, hlast, hreport⟩ := hrun
  refine ⟨s, _, t, Machine.reachable_of_run ⟨rfl, rfl, rfl⟩ hs, hstep, fun hlaw => ?_⟩
  have hsame := hlaw.stale "a" "j" hreport
    ⟨⟨⟨"j", "a", 30000⟩, by rw [hopen]; simp, rfl, rfl⟩, "b", hlast, by decide⟩
  rw [hsame, hstatus] at hfailed
  cases hfailed

/-- The job is claimed, and the one who claimed it acknowledges it. -/
def acknowledged : List JobMove :=
  [.enqueue 0 "j" "org" { jobUri := "skill://kb/curate", userPrompt := "go" },
    .claim 0 "org" "a" none (some 30) [] ["j"]]

/-- A report in time keeps the law. -/
theorem lease_law_sample : ∃ s t, (jobMachine {}).Reaches JobsState.Empty HolderReports s ∧
    (jobMachine {}).step s (.ack 10 "a" { id := "j" }) = some t ∧
      t.rows.map (·.status) = [.done] ∧ LeaseLaw s (.ack 10 "a" { id := "j" }) t := by
  have hrun : ((jobMachine {}).runUnder HolderReports {} acknowledged).map (fun s =>
      (decide (HolderReports s (.ack 10 "a" { id := "j" })),
        ((jobMachine {}).step s (.ack 10 "a" { id := "j" })).map fun t => t.rows.map (·.status))) =
      some (true, some [.done]) := by decide +kernel
  obtain ⟨s, hs, hview⟩ := Machine.exists_reaches_of_runUnder
    (show JobsState.Empty {} from ⟨rfl, rfl, rfl⟩) hrun
  rw [Prod.mk.injEq] at hview
  obtain ⟨hok, hafter⟩ := hview
  obtain ⟨t, ht, hdone⟩ := Option.map_eq_some_iff.1 hafter
  exact ⟨s, t, hs, ht, hdone, lease_law {} hs (of_decide_eq_true hok) ht⟩

end Munin
