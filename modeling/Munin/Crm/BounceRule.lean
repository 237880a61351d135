import Munin.Crm.Deliverability
import Munin.Foundations.Streaks
import Mathlib.Data.List.DropRight

/-!
# The rule of bounces

What an organisation's state of an address should be follows from what happened to it since it was
last cleared: one hard failure or one mark condemns it, and so do three failures in a row, each
within thirty days of the one before.

* **`Condemned`** — the rule, about the things that happened.
* **`Tells`** — what the row of an address tells of them; `Tells.record` is that a call keeps it.
* **`ReadsOwn`** — a call that loads a row sees no other organisation's row of the address. Where
  row-level security is bypassed, as the workers that record failures do, nothing else ensures it.
* **`bounces_counted`** — in every run whose calls read their own rows, the state follows the rule.
* **`bounces_of_others`** — without it, an address that bounced for one organisation is condemned by
  the first soft failure of another.
-/

namespace Munin

open Foundations

/-! ### What happens to an address -/

/-- What may happen to an address. -/
inductive Happening where
  | hard
  | soft
  | manual
  | cleared
  deriving DecidableEq

/-- What a call says that happened. -/
def DeliverabilityCall.happening : DeliverabilityCall → Happening
  | .recordFailure input => if input.severity = .hard then .hard else .soft
  | .setState _ .undeliverable _ => .manual
  | .setState _ .valid _ => .cleared

/-- What happened since the last clear. -/
def sinceClear (history : List (Instant × Happening)) : List (Instant × Happening) :=
  history.rtakeWhile (·.2 ≠ .cleared)

/-- A failure within thirty days of the previous one. -/
def WithinThirtyDays (previous next : Instant × Happening) : Prop :=
  next.1 - previous.1 ≤ 30 * 24 * 60 * 60 * 1000

instance : DecidableRel WithinThirtyDays := fun previous next =>
  inferInstanceAs (Decidable (next.1 - previous.1 ≤ 30 * 24 * 60 * 60 * 1000))

/-- **The rule**: a hard failure, a manual mark, or three failures in a row. -/
def Condemned (since : List (Instant × Happening)) : Prop :=
  (∃ e ∈ since, e.2 = .hard ∨ e.2 = .manual) ∨ HasRun WithinThirtyDays 3 since

instance (since : List (Instant × Happening)) : Decidable (Condemned since) :=
  inferInstanceAs (Decidable (_ ∨ _))

theorem not_condemned_nil : ¬ Condemned [] := by decide

variable {e : Instant × Happening} {history : List (Instant × Happening)}

theorem condemned_concat {since : List (Instant × Happening)} :
    Condemned (since ++ [e]) ↔ Condemned since ∨ e.2 = .hard ∨ e.2 = .manual ∨
      3 ≤ streak (fun a b => WithinThirtyDays b a) (e :: since.reverse) := by
  unfold Condemned
  rw [hasRun_concat]
  simp only [List.mem_append, List.mem_singleton, or_and_right, exists_or, exists_eq_left]
  grind

theorem sinceClear_concat_of_cleared {now : Instant} :
    sinceClear (history ++ [(now, .cleared)]) = [] :=
  List.rtakeWhile_concat_neg _ _ _ (by simp)

theorem sinceClear_concat
    (h : e.2 ≠ .cleared) : sinceClear (history ++ [e]) = sinceClear history ++ [e] :=
  List.rtakeWhile_concat_pos _ _ _ (by simpa using h)

/-! ### What the row tells -/

/-- The state of an address without a row is that of a row by default. -/
def stateOf (row : Option DeliverabilityRow) : AddressDeliverabilityState :=
  (row.map (·.state)).getD .valid

/-- **What a row tells** of the things that happened since the last clear. -/
structure Tells (row : Option DeliverabilityRow) (since : List (Instant × Happening)) : Prop where
  undeliverable : stateOf row = .undeliverable ↔ Condemned since
  valid : stateOf row = .valid ↔ since = []
  last : row.bind (·.lastFailureAt) = since.getLast?.map (·.1)
  count : ¬ Condemned since → (row.map (·.failureCount)).getD 0 =
    streak (fun a b => WithinThirtyDays b a) since.reverse

theorem tells_none : Tells none [] where
  undeliverable := by decide
  valid := by decide
  last := rfl
  count _ := rfl

theorem tells_cleared (orgId address : String) (note : Option String) (now : Instant) :
    Tells (some (clearedRow orgId address note now)) [] where
  undeliverable := iff_of_false (by simp [stateOf, clearedRow]) not_condemned_nil
  valid := iff_of_true rfl rfl
  last := rfl
  count _ := rfl

variable {row : Option DeliverabilityRow} {since : List (Instant × Happening)}

/-- A mark condemns. -/
theorem tells_marked (orgId address : String) (note : Option String) (now : Instant) :
    Tells (some (markedRow orgId address note row now)) (since ++ [(now, .manual)]) where
  undeliverable := iff_of_true rfl (condemned_concat.2 (by simp))
  valid := iff_of_false (by simp [stateOf, markedRow]) (by simp)
  last := by simp [markedRow]
  count h := absurd (condemned_concat.2 (by simp)) h

/-- Every failure counts one more than the row, if that is not too old. -/
theorem nextDeliverability_failureCount (current : Option DeliverabilitySnapshot)
    (signal : DeliverabilitySignal) (now : Instant) :
    (nextDeliverability current signal now).failureCount =
      (if withinWindow current now then (current.map (·.failureCount)).getD 0 else 0) + 1 := by
  unfold nextDeliverability
  dsimp only
  split_ifs <;> rfl

/-- What makes a failure condemn. -/
theorem nextDeliverability_undeliverable (current : Option DeliverabilitySnapshot)
    (signal : DeliverabilitySignal) (now : Instant) :
    (nextDeliverability current signal now).state = .undeliverable ↔
      signal.severity = .hard ∨ current.map (·.state) = some .undeliverable ∨
        SOFT_FAILURES_BEFORE_UNDELIVERABLE ≤
          (nextDeliverability current signal now).failureCount := by
  rw [nextDeliverability_failureCount]
  unfold nextDeliverability
  dsimp only
  generalize (if withinWindow current now then (current.map (·.failureCount)).getD 0 else 0) + 1 =
    count
  split_ifs with hhard hcurrent hcount
  · exact iff_of_true rfl (Or.inl hhard)
  · exact iff_of_true rfl (Or.inr (Or.inl hcurrent))
  · exact iff_of_true rfl (Or.inr (Or.inr hcount))
  · exact iff_of_false (by simp) (by simp [hhard, hcurrent, hcount])

theorem withinWindow_toSnapshot (row : Option DeliverabilityRow) (now : Instant) :
    withinWindow (row.map (·.toSnapshot)) now = true ↔
      ∃ last, row.bind (·.lastFailureAt) = some last ∧ now - last ≤ SOFT_FAILURE_WINDOW_MS := by
  have hbind : (row.map (·.toSnapshot)).bind (·.lastFailureAt) = row.bind (·.lastFailureAt) := by
    cases row <;> rfl
  unfold withinWindow
  rw [hbind]
  cases row.bind (·.lastFailureAt) <;> simp

/-- The streak that a failure ends. -/
theorem Tells.failureCount (h : Tells row since) (hsince : ¬ Condemned since) (now : Instant)
    (what : Happening) (signal : DeliverabilitySignal) :
    (nextDeliverability (row.map (·.toSnapshot)) signal now).failureCount =
      streak (fun a b => WithinThirtyDays b a) ((now, what) :: since.reverse) := by
  have hcount : ((row.map (·.toSnapshot)).map (·.failureCount)).getD 0 =
      streak (fun a b => WithinThirtyDays b a) since.reverse := by
    rw [← h.count hsince]
    cases row <;> rfl
  rw [nextDeliverability_failureCount, hcount]
  rcases List.eq_nil_or_concat since with rfl | ⟨earlier, previous, rfl⟩
  · simp [streak]
  · have hwithin : withinWindow (row.map (·.toSnapshot)) now = true ↔
        WithinThirtyDays previous (now, what) := by
      have hlast := h.last
      rw [List.concat_eq_append, List.getLast?_concat] at hlast
      rw [withinWindow_toSnapshot, hlast]
      simp [WithinThirtyDays, SOFT_FAILURE_WINDOW_MS, SOFT_FAILURE_WINDOW_DAYS]
    rw [List.concat_eq_append, List.reverse_concat, streak]
    by_cases hprevious : WithinThirtyDays previous (now, what)
    · rw [if_pos (hwithin.2 hprevious), if_pos hprevious]
    · rw [if_neg (mt hwithin.1 hprevious), if_neg hprevious]

/-- A failure is counted. -/
theorem Tells.failed (h : Tells row since) (orgId address : String) (input : FailureInput)
    (now : Instant) :
    Tells (some (failureRow orgId address input row now))
      (since ++ [(now, (DeliverabilityCall.recordFailure input).happening)]) := by
  set what := (DeliverabilityCall.recordFailure input).happening with hwhat
  have hstate : stateOf (some (failureRow orgId address input row now)) =
      (nextDeliverability (row.map (·.toSnapshot)) ⟨input.severity, input.reason⟩ now).state := rfl
  have hold : (row.map (·.toSnapshot)).map (·.state) = some .undeliverable ↔ Condemned since := by
    rw [← h.undeliverable]
    cases row <;> simp [stateOf, DeliverabilityRow.toSnapshot]
  refine ⟨?_, iff_of_false ?_ (by simp), by simp [failureRow], fun hnot => ?_⟩
  · rw [hstate, nextDeliverability_undeliverable, hold, condemned_concat]
    by_cases hsince : Condemned since
    · exact iff_of_true (Or.inr (Or.inl hsince)) (Or.inl hsince)
    · rw [h.failureCount hsince now what]
      have hhard : what = .hard ∨ what = .manual ↔ input.severity = .hard := by
        rw [hwhat, DeliverabilityCall.happening]
        split_ifs with hseverity <;> simp [hseverity]
      rw [← or_assoc (a := what = .hard), hhard]
      simp only [hsince, false_or, SOFT_FAILURES_BEFORE_UNDELIVERABLE]
  · rw [hstate, nextDeliverability]
    dsimp only
    split_ifs <;> simp
  · rw [List.reverse_concat]
    exact h.failureCount (fun hsince => hnot (condemned_concat.2 (Or.inl hsince))) now what _

/-! ### Calls and runs -/

section Run

variable (toLowerCase : String → String) (limit : LimitOne DeliverabilityRow)

/-- What happened to an organisation's address. -/
def happenings (orgId address : String) (events : List DeliverabilityEvent) :
    List (Instant × Happening) :=
  (events.filter fun e => e.Concerns toLowerCase orgId address).map fun e =>
    (e.now, e.call.happening)

/-- **A call reads its own row**: what a failure or a mark sees of the rows of its address is its
organisation's. A clear reads none. -/
def DeliverabilityEvent.ReadsOwn (e : DeliverabilityEvent) (address : String)
    (db : Deliverabilities) : Prop :=
  e.call.happening ≠ .cleared →
    ∀ row ∈ db.rows, e.scope.sees row = true → row.address = address → row.orgId = e.scope.orgId

instance (e : DeliverabilityEvent) (address : String) (db : Deliverabilities) :
    Decidable (e.ReadsOwn address db) := inferInstanceAs (Decidable (_ → _))

/-- The calls about an organisation's address read their own rows, in a run from a table. -/
def RunReadsOwn (orgId address : String) : List DeliverabilityEvent → Deliverabilities → Prop
  | [], _ => True
  | e :: es, db =>
    (e.Concerns toLowerCase orgId address → e.ReadsOwn address db) ∧
      RunReadsOwn orgId address es (e.exec toLowerCase limit db)

/-- Going through the run decides it. -/
def decideRunReadsOwn (orgId address : String) : (events : List DeliverabilityEvent) →
    (db : Deliverabilities) → Decidable (RunReadsOwn toLowerCase limit orgId address events db)
  | [], _ => isTrue trivial
  | e :: es, db =>
    have := decideRunReadsOwn orgId address es (e.exec toLowerCase limit db)
    inferInstanceAs (Decidable (_ ∧ _))

instance (orgId address : String) (events : List DeliverabilityEvent) (db : Deliverabilities) :
    Decidable (RunReadsOwn toLowerCase limit orgId address events db) :=
  decideRunReadsOwn toLowerCase limit orgId address events db

variable {toLowerCase limit}

variable {history : List (Instant × Happening)}

variable {db : Deliverabilities}

/-- **A call is told by the row**. -/
theorem Tells.record {e : DeliverabilityEvent} {orgId address : String}
    (h : Tells (db.own orgId address) (sinceClear history))
    (hconcerns : e.Concerns toLowerCase orgId address) (hreads : e.ReadsOwn address db) :
    Tells ((e.exec toLowerCase limit db).own orgId address)
      (sinceClear (history ++ [(e.now, e.call.happening)])) := by
  rw [own_exec, if_pos hconcerns]
  obtain ⟨rfl, -⟩ := hconcerns
  by_cases hcleared : e.call.happening = .cleared
  · rw [hcleared, sinceClear_concat_of_cleared]
    obtain ⟨scope, now, call⟩ := e
    cases call with
    | recordFailure input =>
      simp only [DeliverabilityCall.happening] at hcleared
      split_ifs at hcleared
    | setState raw state note =>
      cases state with
      | valid => exact tells_cleared _ _ note now
      | undeliverable => cases hcleared
  · rw [loadForUpdate_eq_own (hreads hcleared), sinceClear_concat hcleared]
    obtain ⟨scope, now, call⟩ := e
    cases call with
    | recordFailure input => exact h.failed _ _ input now
    | setState raw state note =>
      cases state with
      | valid => exact absurd rfl hcleared
      | undeliverable => exact tells_marked _ _ note now

/-- What a run does to what the row tells: by induction on the run. -/
theorem Tells.run {orgId address : String} {events : List DeliverabilityEvent}
    (h : Tells (db.own orgId address) (sinceClear history))
    (hreads : RunReadsOwn toLowerCase limit orgId address events db) :
    Tells ((runDeliverability toLowerCase limit events db).own orgId address)
      (sinceClear (history ++ happenings toLowerCase orgId address events)) := by
  induction events generalizing db history with
  | nil => simpa [happenings, runDeliverability] using h
  | cons e es ih =>
    obtain ⟨hfirst, hrest⟩ := hreads
    rw [runDeliverability_cons]
    by_cases hconcerns : e.Concerns toLowerCase orgId address
    · have htail := ih (h.record hconcerns (hfirst hconcerns)) hrest
      rw [List.append_assoc] at htail
      simpa [happenings, hconcerns] using htail
    · have hsame : Tells ((e.exec toLowerCase limit db).own orgId address) (sinceClear history) := by
        rw [own_exec, if_neg hconcerns]
        exact h
      simpa [happenings, hconcerns] using ih hsame hrest

end Run

/-- **Bounces are counted by the rule**: in every run of failures, marks and clears whose calls about
an organisation's address read their own rows, the address is undeliverable if and only if what
happened to it since the last clear condemns it, and it is valid if and only if nothing happened
since. -/
theorem bounces_counted (toLowerCase : String → String) (limit : LimitOne DeliverabilityRow)
    (orgId address : String) (events : List DeliverabilityEvent)
    (h : RunReadsOwn toLowerCase limit orgId address events {}) :
    let state := stateOf ((runDeliverability toLowerCase limit events {}).own orgId address)
    let since := sinceClear (happenings toLowerCase orgId address events)
    (state = .undeliverable ↔ Condemned since) ∧ (state = .valid ↔ since = []) := by
  have hempty : Tells (({} : Deliverabilities).own orgId address) (sinceClear []) := tells_none
  have htells := hempty.run h
  rw [List.nil_append] at htells
  exact ⟨htells.undeliverable, htells.valid⟩

/-! ### Runs on fixed calls -/

/-- A failure that a worker records. -/
def workerFailure (orgId address : String) (severity : DeliverabilitySeverity)
    (reason : AddressDeliverabilityReason) (now : Instant) : DeliverabilityEvent where
  scope := ⟨orgId, true⟩
  now := now
  call := .recordFailure { address, severity, reason }

/-- Three notices, the last of them thirty days after the second to the millisecond. -/
theorem bounces_counted_sample :
    let events := [workerFailure "a" "ola@example.no" .soft .noReplyNotice 0,
      workerFailure "a" "ola@example.no" .soft .deliveryDead 1000,
      workerFailure "a" "ola@example.no" .soft .noReplyNotice (1000 + 30 * 24 * 60 * 60 * 1000)]
    stateOf ((runDeliverability id .first events {}).own "a" "ola@example.no") = .undeliverable :=
  ((bounces_counted id .first "a" "ola@example.no" _ (by decide +kernel)).1).2 (by decide +kernel)

/-- **The bounces of others count**: a mail to an address bounces for one organisation; then a mail
of another to that address is answered by a notice that it is not read, its first failure. The
worker finds the row of the former. -/
theorem bounces_of_others :
    let events := [workerFailure "a" "ola@example.no" .hard .hardBounce 0,
      workerFailure "b" "ola@example.no" .soft .noReplyNotice 1000]
    stateOf ((runDeliverability id .first events {}).own "b" "ola@example.no") = .undeliverable ∧
      happenings id "b" "ola@example.no" events = [(1000, .soft)] ∧
      ¬ Condemned (sinceClear (happenings id "b" "ola@example.no" events)) := by
  decide +kernel

end Munin
