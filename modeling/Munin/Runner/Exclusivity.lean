import Munin.Foundations.Instant
import Munin.Foundations.Machine
import Mathlib.Logic.Function.Basic

/-!
# One runner for a conversation

Runner processes answer conversations. A trigger aborts the run that a runner has for the
conversation and starts a new one; a run takes the lease of the conversation before it works, and
gives it back when it ends. All runs of a runner share one holder id and one set of held
conversations.

* **`RunnersState.step`** — any number of runners: triggers, the requests of runs on their way to
  the server and back, and what the server does with them.
* **`LeasesNamed`** — the law: the lease of a conversation names the holder of every run that has
  acquired it, has not ended and was not aborted.
* **`ReleasesAlone`** — a release is carried out while no such run of the same runner is there.
* **`leases_named`** — under that condition the law holds in every state; `step_leases_named` says
  that a release that breaks the condition breaks the law.
-/

namespace Munin

open Foundations

/-- The lease columns of a conversation. -/
structure RunnerLease where
  runnerHolder : Option String := none
  runnerLeaseExpiresAt : Option Instant := none

/-- Where a run stands. -/
inductive RunPhase where
  /-- It waits, and reads the conversation. -/
  | starting
  /-- Its request for the lease is on its way. -/
  | acquiring
  /-- The lease was granted, and the answer is on its way. -/
  | granted
  | denied
  | working
  /-- Its request to release is on its way. -/
  | releasing
  | ended
  deriving DecidableEq

/-- A run of the conversation handler. -/
structure RunnerRun where
  holderId : String
  conversationId : String
  aborted : Bool := false
  phase : RunPhase := .starting
  deriving DecidableEq

/-- The run has acquired the lease, has not ended and was not aborted. -/
def RunnerRun.Live (run : RunnerRun) : Prop :=
  (run.phase = .granted ∨ run.phase = .working) ∧ run.aborted = false

instance (run : RunnerRun) : Decidable run.Live := inferInstanceAs (Decidable (_ ∧ _))

/-- The leases, the runs, and what each runner keeps: the conversations that it holds and the run
that is in flight for each. -/
structure RunnersState where
  leases : String → RunnerLease := fun _ => {}
  runs : ℕ → Option RunnerRun := fun _ => none
  claimsHeld : String → String → Bool := fun _ _ => false
  inFlight : String → String → Option ℕ := fun _ _ => none

/-- What a runner keeps of a conversation, changed. -/
def keep {α : Type*} (f : String → String → α) (holderId conversationId : String) (v : α) :
    String → String → α :=
  Function.update f holderId (Function.update (f holderId) conversationId v)

namespace RunnersState

variable (s : RunnersState)

/-- A run, as it goes on. -/
def setRun (i : ℕ) (run : RunnerRun) : RunnersState :=
  { s with runs := Function.update s.runs i (some run) }

@[simp]
theorem setRun_runs (i : ℕ) (run : RunnerRun) :
    (s.setRun i run).runs = Function.update s.runs i (some run) := rfl

/-- Whether a runner holds a conversation. -/
def setHeld (holderId conversationId : String) (held : Bool) : RunnersState :=
  { s with claimsHeld := keep s.claimsHeld holderId conversationId held }

/-- The run that is in flight is aborted. -/
def abort (holderId conversationId : String) : RunnersState :=
  match s.inFlight holderId conversationId with
  | none => s
  | some i =>
    match s.runs i with
    | none => s
    | some run => s.setRun i { run with aborted := true }

/-- The run's promise settles. -/
def finish (i : ℕ) (run : RunnerRun) : RunnersState :=
  let s := s.setRun i { run with phase := .ended }
  if s.inFlight run.holderId run.conversationId = some i then
    { s with inFlight := keep s.inFlight run.holderId run.conversationId none }
  else s

end RunnersState

/-- What may happen next. A request may fail at any point of its way. -/
inductive RunnerMove where
  | trigger (holderId conversationId : String) (i : ℕ)
  | skip (i : ℕ)
  | acquire (i : ℕ)
  | serveAcquire (i : ℕ) (now : Instant)
  | answer (i : ℕ)
  | complete (i : ℕ)
  | serveRelease (i : ℕ)
  | fail (i : ℕ)

/-- `tryAcquireConversation`: the lease after the update, if it finds the row. -/
def tryAcquireConversation (lease : RunnerLease) (holder : String) (leaseSeconds : ℤ)
    (now : Instant) : Option RunnerLease :=
  if lease.runnerHolder = none ∨ lease.runnerHolder = some holder ∨
      lease.runnerLeaseExpiresAt.all (· < now) then
    some { runnerHolder := holder, runnerLeaseExpiresAt := now + max 30 leaseSeconds * 1000 }
  else none

/-- `releaseConversationClaim`. -/
def releaseConversationClaim (lease : RunnerLease) (holder : String) : RunnerLease :=
  if lease.runnerHolder = some holder then {} else lease

/-- One step; `leaseSeconds` is what each runner asks for. -/
def RunnersState.step (leaseSeconds : String → ℤ) (s : RunnersState) :
    RunnerMove → Option RunnersState
  | .trigger holderId conversationId i =>
    if (s.runs i).isNone then
      let s := (s.abort holderId conversationId).setRun i { holderId, conversationId }
      some { s with inFlight := keep s.inFlight holderId conversationId (some i) }
    else none
  | .skip i => (s.runs i).bind fun run =>
    if run.phase = .starting then some (s.finish i run) else none
  | .acquire i => (s.runs i).bind fun run =>
    if run.phase = .starting ∧ run.aborted = false then
      some (s.setRun i { run with phase := .acquiring })
    else none
  | .serveAcquire i now => (s.runs i).bind fun run =>
    if run.phase = .acquiring then
      match tryAcquireConversation (s.leases run.conversationId) run.holderId
          (leaseSeconds run.holderId) now with
      | some lease =>
        some ({ s with leases := Function.update s.leases run.conversationId lease }.setRun i
          { run with phase := .granted })
      | none => some (s.setRun i { run with phase := .denied })
    else none
  | .answer i => (s.runs i).bind fun run =>
    if run.phase = .granted then
      some ((s.setHeld run.holderId run.conversationId true).setRun i { run with phase := .working })
    else if run.phase = .denied then some (s.finish i run)
    else none
  | .complete i => (s.runs i).bind fun run =>
    if run.phase = .working then
      -- `claimsHeld.delete`, which another run of the runner may have done before
      if s.claimsHeld run.holderId run.conversationId then
        some ((s.setHeld run.holderId run.conversationId false).setRun i
          { run with phase := .releasing })
      else some (s.finish i run)
    else none
  | .serveRelease i => (s.runs i).bind fun run =>
    if run.phase = .releasing then
      let lease := releaseConversationClaim (s.leases run.conversationId) run.holderId
      some ({ s with leases := Function.update s.leases run.conversationId lease }.finish i run)
    else none
  | .fail i => (s.runs i).bind fun run =>
    if run.phase = .acquiring ∨ run.phase = .granted ∨ run.phase = .denied ∨
        run.phase = .releasing then
      some (s.finish i run)
    else none

/-- Any number of runners. -/
def runners (leaseSeconds : String → ℤ) : Machine RunnersState RunnerMove :=
  ⟨RunnersState.step leaseSeconds⟩

/-! ### The law -/

/-- **The law**: the lease of a conversation names the holder of every live run. -/
def LeasesNamed (s : RunnersState) : Prop :=
  ∀ i run, s.runs i = some run → run.Live →
    (s.leases run.conversationId).runnerHolder = some run.holderId

/-- No lease has reached its expiry when another runner asks for it. -/
def InTime (s : RunnersState) : RunnerMove → Prop
  | .serveAcquire i now => ∀ run, s.runs i = some run →
    ∀ e, (s.leases run.conversationId).runnerLeaseExpiresAt = some e → now ≤ e
  | _ => True

/-- A release is carried out while its runner has no live run for the conversation. -/
def ReleasesAlone (s : RunnersState) : RunnerMove → Prop
  | .serveRelease i => ∀ run, s.runs i = some run → ∀ j other, s.runs j = some other →
    other.holderId = run.holderId → other.conversationId = run.conversationId → ¬ other.Live
  | _ => True

/-- A lease that names a holder has an expiry. -/
def LeasesDated (s : RunnersState) : Prop :=
  ∀ c, (s.leases c).runnerHolder.isSome → (s.leases c).runnerLeaseExpiresAt.isSome

section Step

variable {s s' : RunnersState} {leaseSeconds : String → ℤ}

/-- What steps other than those of the server do: leases stay, and a live run was live, or it is
one that has just gone from granted to working. -/
structure KeepsLive (s s' : RunnersState) : Prop where
  leases : s'.leases = s.leases
  live : ∀ i run, s'.runs i = some run → run.Live → ∃ old, s.runs i = some old ∧ old.Live ∧
    old.holderId = run.holderId ∧ old.conversationId = run.conversationId

theorem KeepsLive.named (h : KeepsLive s s') (hs : LeasesNamed s) : LeasesNamed s' := by
  intro i run hrun hlive
  obtain ⟨old, hold, holdLive, hholder, hconv⟩ := h.live i run hrun hlive
  rw [h.leases, ← hholder, ← hconv]
  exact hs i old hold holdLive

/-- One run that changes, and is live only if it was. -/
theorem KeepsLive.setRun (s : RunnersState) {i : ℕ} {run : RunnerRun}
    (h : run.Live → ∃ old, s.runs i = some old ∧ old.Live ∧ old.holderId = run.holderId ∧
      old.conversationId = run.conversationId) : KeepsLive s (s.setRun i run) where
  leases := rfl
  live j other hother hlive := by
    by_cases hj : j = i
    · subst hj
      rw [RunnersState.setRun_runs, Function.update_self, Option.some.injEq] at hother
      subst hother
      exact h hlive
    · rw [RunnersState.setRun_runs, Function.update_of_ne hj] at hother
      exact ⟨other, hother, hlive, rfl, rfl⟩

theorem KeepsLive.trans {s'' : RunnersState} (h : KeepsLive s s') (h' : KeepsLive s' s'') :
    KeepsLive s s'' where
  leases := h'.leases.trans h.leases
  live i run hrun hlive := by
    obtain ⟨mid, hmid, hmidLive, hholder, hconv⟩ := h'.live i run hrun hlive
    obtain ⟨old, hold, holdLive, hholder', hconv'⟩ := h.live i mid hmid hmidLive
    exact ⟨old, hold, holdLive, hholder'.trans hholder, hconv'.trans hconv⟩

theorem KeepsLive.abort (s : RunnersState) (holderId conversationId : String) :
    KeepsLive s (s.abort holderId conversationId) := by
  unfold RunnersState.abort
  split
  · exact ⟨rfl, fun i run hrun hlive => ⟨run, hrun, hlive, rfl, rfl⟩⟩
  · split
    · exact ⟨rfl, fun i run hrun hlive => ⟨run, hrun, hlive, rfl, rfl⟩⟩
    · exact .setRun s fun hlive => absurd hlive.2 (by simp)

/-- A run that has ended is not live. -/
theorem KeepsLive.finish (s : RunnersState) (i : ℕ) (run : RunnerRun) :
    KeepsLive s (s.finish i run) := by
  have hended : KeepsLive s (s.setRun i { run with phase := .ended }) :=
    .setRun s fun hlive => by rcases hlive.1 with h | h <;> cases h
  unfold RunnersState.finish
  dsimp only
  split
  · exact ⟨hended.leases, hended.live⟩
  · exact hended

variable {a : RunnerMove}

/-- **What each step does**: it changes no lease and makes no run live; or the server grants the
lease that a run asks for; or it carries out a release. -/
theorem step_cases (h : s.step leaseSeconds a = some s') :
    (KeepsLive s s' ∧ ∀ i, a ≠ .serveRelease i) ∨
    (∃ i now run lease, a = .serveAcquire i now ∧ s.runs i = some run ∧
      tryAcquireConversation (s.leases run.conversationId) run.holderId
        (leaseSeconds run.holderId) now = some lease ∧
      s'.leases = Function.update s.leases run.conversationId lease ∧
      s'.runs = Function.update s.runs i (some { run with phase := .granted })) ∨
    (∃ i run, a = .serveRelease i ∧ s.runs i = some run ∧ run.phase = .releasing ∧
      s'.leases = Function.update s.leases run.conversationId
        (releaseConversationClaim (s.leases run.conversationId) run.holderId) ∧
      s'.runs = Function.update s.runs i (some { run with phase := .ended })) := by
  -- Only the two steps of the server touch a lease; the others move a run on or end it.
  cases a with
  | trigger holderId conversationId i =>
    simp only [RunnersState.step] at h
    split at h
    · cases h
      refine .inl ⟨?_, fun j hj => by cases hj⟩
      have hstart : KeepsLive (s.abort holderId conversationId)
          ((s.abort holderId conversationId).setRun i { holderId, conversationId }) :=
        .setRun _ fun hlive => by rcases hlive.1 with h | h <;> cases h
      have hboth := (KeepsLive.abort s holderId conversationId).trans hstart
      exact ⟨hboth.leases, hboth.live⟩
    · cases h
  | skip i =>
    obtain ⟨run, -, h⟩ := Option.bind_eq_some_iff.1 h
    split at h
    · cases h
      exact .inl ⟨.finish s i run, fun j hj => by cases hj⟩
    · cases h
  | acquire i =>
    obtain ⟨run, -, h⟩ := Option.bind_eq_some_iff.1 h
    split at h
    · cases h
      refine .inl ⟨.setRun s fun hlive => ?_, fun j hj => by cases hj⟩
      rcases hlive.1 with h | h <;> cases h
    · cases h
  | serveAcquire i now =>
    obtain ⟨run, hrun, h⟩ := Option.bind_eq_some_iff.1 h
    split at h
    · split at h
      · rename_i lease hlease
        cases h
        exact .inr (.inl ⟨i, now, run, lease, rfl, hrun, hlease, rfl, rfl⟩)
      · cases h
        refine .inl ⟨.setRun s fun hlive => ?_, fun j hj => by cases hj⟩
        rcases hlive.1 with h | h <;> cases h
    · cases h
  | answer i =>
    obtain ⟨run, hrun, h⟩ := Option.bind_eq_some_iff.1 h
    split at h
    · rename_i hgranted
      cases h
      refine .inl ⟨?_, fun j hj => by cases hj⟩
      have hset : KeepsLive s (s.setRun i { run with phase := .working }) :=
        .setRun s fun hlive => ⟨run, hrun, ⟨.inl hgranted, hlive.2⟩, rfl, rfl⟩
      exact ⟨hset.leases, hset.live⟩
    · split at h
      · cases h
        exact .inl ⟨.finish s i run, fun j hj => by cases hj⟩
      · cases h
  | complete i =>
    obtain ⟨run, hrun, h⟩ := Option.bind_eq_some_iff.1 h
    split at h
    · split at h
      · cases h
        refine .inl ⟨?_, fun j hj => by cases hj⟩
        have hset : KeepsLive s (s.setRun i { run with phase := .releasing }) :=
          .setRun s fun hlive => by rcases hlive.1 with h | h <;> cases h
        exact ⟨hset.leases, hset.live⟩
      · cases h
        exact .inl ⟨.finish s i run, fun j hj => by cases hj⟩
    · cases h
  | serveRelease i =>
    obtain ⟨run, hrun, h⟩ := Option.bind_eq_some_iff.1 h
    split at h
    · rename_i hreleasing
      cases h
      refine .inr (.inr ⟨i, run, rfl, hrun, hreleasing, ?_, ?_⟩)
      · unfold RunnersState.finish
        dsimp only
        split <;> rfl
      · unfold RunnersState.finish
        dsimp only
        split <;> rfl
    · cases h
  | fail i =>
    obtain ⟨run, -, h⟩ := Option.bind_eq_some_iff.1 h
    split at h
    · cases h
      exact .inl ⟨.finish s i run, fun j hj => by cases hj⟩
    · cases h

variable {lease lease' : RunnerLease}

theorem tryAcquire_eq_some {holder : String} {seconds : ℤ}
    {now : Instant} (h : tryAcquireConversation lease holder seconds now = some lease') :
    lease'.runnerHolder = some holder ∧ lease'.runnerLeaseExpiresAt.isSome := by
  unfold tryAcquireConversation at h
  split at h
  · cases h
    exact ⟨rfl, rfl⟩
  · cases h

/-- A lease that has not expired is granted to its holder only. -/
theorem holder_of_tryAcquire {holder other : String} {seconds : ℤ}
    {now : Instant} (h : tryAcquireConversation lease holder seconds now = some lease')
    (hother : lease.runnerHolder = some other) (hdated : lease.runnerLeaseExpiresAt.isSome)
    (htime : ∀ e, lease.runnerLeaseExpiresAt = some e → now ≤ e) : other = holder := by
  obtain ⟨e, he⟩ := Option.isSome_iff_exists.1 hdated
  unfold tryAcquireConversation at h
  split at h
  · rename_i hfree
    rw [hother, he, Option.all_some, decide_eq_true_iff] at hfree
    rcases hfree with hnone | hsame | hlate
    · cases hnone
    · exact Option.some.inj hsame
    · exact absurd hlate (Int.not_lt.2 (htime e he))
  · cases h

theorem LeasesDated.step (hs : LeasesDated s)
    (h : s.step leaseSeconds a = some s') : LeasesDated s' := by
  rcases step_cases h with ⟨hkeep, -⟩ | ⟨i, now, run, lease, -, -, hlease, hleases, -⟩ |
    ⟨i, run, -, -, -, hleases, -⟩ <;> intro c hc
  · rw [hkeep.leases] at hc ⊢
    exact hs c hc
  · rw [hleases] at hc ⊢
    by_cases hcc : c = run.conversationId
    · subst hcc
      rw [Function.update_self]
      exact (tryAcquire_eq_some hlease).2
    · rw [Function.update_of_ne hcc] at hc ⊢
      exact hs c hc
  · rw [hleases] at hc ⊢
    by_cases hcc : c = run.conversationId
    · subst hcc
      rw [Function.update_self] at hc ⊢
      unfold releaseConversationClaim at hc ⊢
      split at hc
      · cases hc
      · rename_i hno
        rw [if_neg hno]
        exact hs _ hc
    · rw [Function.update_of_ne hcc] at hc ⊢
      exact hs c hc

/-- **One step**: it keeps the law exactly if it releases no lease beside a live run. -/
theorem step_leases_named (hs : LeasesNamed s) (hdated : LeasesDated s)
    (htime : InTime s a) (h : s.step leaseSeconds a = some s') :
    LeasesNamed s' ↔ ReleasesAlone s a := by
  rcases step_cases h with ⟨hkeep, hno⟩ | ⟨i, now, run, lease, rfl, hrun, hlease, hleases, hruns⟩ |
    ⟨i, run, rfl, hrun, hreleasing, hleases, hruns⟩
  · refine iff_of_true (hkeep.named hs) ?_
    cases a with
    | serveRelease i => exact absurd rfl (hno i)
    | _ => trivial
  · refine iff_of_true (fun j other hother hlive => ?_) trivial
    obtain ⟨hholder, -⟩ := tryAcquire_eq_some hlease
    rw [hruns] at hother
    rw [hleases]
    by_cases hj : j = i
    · subst hj
      rw [Function.update_self, Option.some.injEq] at hother
      subst hother
      rw [Function.update_self]
      exact hholder
    · rw [Function.update_of_ne hj] at hother
      by_cases hc : other.conversationId = run.conversationId
      · have hnamed := hs j other hother hlive
        rw [hc] at hnamed ⊢
        rw [Function.update_self, hholder, Option.some.injEq]
        have hisSome : (s.leases run.conversationId).runnerHolder.isSome := by
          rw [hnamed]
          rfl
        exact (holder_of_tryAcquire hlease hnamed (hdated _ hisSome) (htime run hrun)).symm
      · rw [Function.update_of_ne hc]
        exact hs j other hother hlive
  · have hsame : ∀ j other, s.runs j = some other → other.Live →
        s'.runs j = some other := by
      intro j other hother hlive
      rw [hruns, Function.update_of_ne, hother]
      rintro rfl
      obtain rfl : run = other := Option.some.inj (hrun.symm.trans hother)
      rcases hlive.1 with h | h <;> rw [hreleasing] at h <;> cases h
    constructor
    · intro hnamed run' hrun' j other hother hholder hconv hlive
      obtain rfl : run = run' := Option.some.inj (hrun.symm.trans hrun')
      have hafter := hnamed j other (hsame j other hother hlive) hlive
      have hbefore := hs j other hother hlive
      rw [hconv, hholder] at hafter hbefore
      rw [hleases, Function.update_self, releaseConversationClaim, if_pos hbefore] at hafter
      cases hafter
    · intro halone j other hother hlive
      have hold : s.runs j = some other := by
        rw [hruns] at hother
        by_cases hj : j = i
        · subst hj
          rw [Function.update_self, Option.some.injEq] at hother
          subst hother
          rcases hlive.1 with h | h <;> cases h
        · rwa [Function.update_of_ne hj] at hother
      have hbefore := hs j other hold hlive
      rw [hleases]
      by_cases hc : other.conversationId = run.conversationId
      · have hne : other.holderId ≠ run.holderId := fun heq => halone run hrun j other hold heq hc hlive
        rw [hc] at hbefore ⊢
        rw [Function.update_self, releaseConversationClaim, if_neg, hbefore]
        rw [hbefore, Option.some.injEq]
        exact hne
      · rw [Function.update_of_ne hc]
        exact hbefore

end Step

/-- **The lease names the holder of every live run**, so two runners have none for the same
conversation, if releases are carried out alone. -/
theorem leases_named (leaseSeconds : String → ℤ) {s : RunnersState}
    (h : (runners leaseSeconds).Reaches (· = {}) (fun s a => InTime s a ∧ ReleasesAlone s a) s) :
    LeasesNamed s ∧ ∀ i j run other, s.runs i = some run → s.runs j = some other → run.Live →
      other.Live → run.conversationId = other.conversationId → run.holderId = other.holderId := by
  have hinv : LeasesNamed s ∧ LeasesDated s := by
    refine h.invariant (I := fun s => LeasesNamed s ∧ LeasesDated s) ?_ ?_
    · rintro _ rfl
      exact ⟨fun i run hrun => (by cases hrun), fun c hc => (by cases hc)⟩
    · rintro s s' a - ⟨hs, hdated⟩ ⟨htime, halone⟩ hstep
      exact ⟨(step_leases_named hs hdated htime hstep).2 halone, hdated.step hstep⟩
  refine ⟨hinv.1, fun i j run other hrun hother hlive hlive' hconv => ?_⟩
  have hi := hinv.1 i run hrun hlive
  have hj := hinv.1 j other hother hlive'
  rw [hconv, hj] at hi
  exact (Option.some.inj hi).symm

instance (s : RunnersState) : ∀ a : RunnerMove, Decidable (InTime s a)
  | .serveAcquire i now => decidable_of_iff (∀ run ∈ s.runs i,
      ∀ e ∈ (s.leases run.conversationId).runnerLeaseExpiresAt, now ≤ e) Iff.rfl
  | .trigger .. | .skip _ | .acquire _ | .answer _ | .complete _ | .serveRelease _ | .fail _ =>
    inferInstanceAs (Decidable True)

/-- Only the first `n` runs ask for leases, and a release is carried out while none of them is a live
one of the same runner. -/
def AloneBelow (n : ℕ) (s : RunnersState) : RunnerMove → Prop
  | .serveAcquire i _ => i < n
  | .serveRelease i => ∀ run ∈ s.runs i, ∀ j < n, ∀ other ∈ s.runs j,
    other.holderId = run.holderId → other.conversationId = run.conversationId → ¬ other.Live
  | _ => True

instance (n : ℕ) (s : RunnersState) : ∀ a : RunnerMove, Decidable (AloneBelow n s a)
  | .serveAcquire i _ => inferInstanceAs (Decidable (i < n))
  | .serveRelease i => inferInstanceAs (Decidable (∀ run ∈ s.runs i, ∀ j < n, ∀ other ∈ s.runs j,
      other.holderId = run.holderId → other.conversationId = run.conversationId → ¬ other.Live))
  | .trigger .. | .skip _ | .acquire _ | .answer _ | .complete _ | .fail _ =>
    inferInstanceAs (Decidable True)

/-- Then the live runs are among the first `n`, so the release is alone among all runs. -/
theorem releasesAlone_of_aloneBelow {n : ℕ} {leaseSeconds : String → ℤ} {s s' : RunnersState}
    {a : RunnerMove} (hs : ∀ j other, s.runs j = some other → other.Live → j < n)
    (ha : AloneBelow n s a) (h : (runners leaseSeconds).step s a = some s') :
    ReleasesAlone s a ∧ ∀ j other, s'.runs j = some other → other.Live → j < n := by
  rcases step_cases h with ⟨hkeep, hno⟩ | ⟨i, now, run, lease, rfl, -, -, -, hruns⟩ |
    ⟨i, run, rfl, -, -, -, hruns⟩
  · refine ⟨?_, fun j other hother hlive => ?_⟩
    · cases a with
      | serveRelease i => exact absurd rfl (hno i)
      | _ => trivial
    · obtain ⟨old, hold, holdLive, -⟩ := hkeep.live j other hother hlive
      exact hs j old hold holdLive
  · refine ⟨trivial, fun j other hother hlive => ?_⟩
    by_cases hj : j = i
    · exact hj ▸ ha
    · rw [hruns, Function.update_of_ne hj] at hother
      exact hs j other hother hlive
  · refine ⟨fun run' hrun' j other hother hholder hconv hlive => ?_, fun j other hother hlive => ?_⟩
    · exact ha run' hrun' j (hs j other hother hlive) other hother hholder hconv hlive
    · by_cases hj : j = i
      · rw [hruns, hj, Function.update_self, Option.some.injEq] at hother
        subst hother
        rcases hlive.1 with hphase | hphase <;> cases hphase
      · rw [hruns, Function.update_of_ne hj] at hother
        exact hs j other hother hlive

/-- A trigger aborts a run that holds the lease. It releases the lease before its successor takes it
again, another runner is refused meanwhile, and gets the lease when the successor has released
it. -/
def releasedInTurn : List RunnerMove :=
  [.trigger "a" "c" 0, .acquire 0, .serveAcquire 0 0, .answer 0, .trigger "a" "c" 1,
    .complete 0, .serveRelease 0, .acquire 1, .serveAcquire 1 10, .answer 1,
    .trigger "b" "c" 2, .acquire 2, .serveAcquire 2 20, .answer 2, .complete 1, .serveRelease 1,
    .trigger "b" "c" 3, .acquire 3, .serveAcquire 3 30, .answer 3]

theorem leases_named_sample : ∃ s, LeasesNamed s ∧ (s.leases "c").runnerHolder = some "b" ∧
    [0, 1, 2, 3].map (fun i => (s.runs i).map (·.phase)) =
      [some .ended, some .ended, some .ended, some .working] := by
  have hrun : (((runners fun _ => 60).runUnder (fun s a => InTime s a ∧ AloneBelow 4 s a) {}
      releasedInTurn).map fun s =>
        ((s.leases "c").runnerHolder, [0, 1, 2, 3].map fun i => (s.runs i).map (·.phase))) =
      some (some "b", [some .ended, some .ended, some .ended, some .working]) := by
    decide +kernel
  obtain ⟨s, hs, hvalues⟩ := Option.map_eq_some_iff.1 hrun
  obtain ⟨hholder, hphases⟩ := Prod.mk.inj hvalues
  have hreach : (runners fun _ => 60).Reaches (· = {})
      (fun s a => InTime s a ∧ AloneBelow 4 s a) s := Machine.Reaches.runUnder (.start rfl) hs
  have halone : (runners fun _ => 60).Reaches (· = {})
        (fun s a => InTime s a ∧ ReleasesAlone s a) s ∧
      ∀ j other, s.runs j = some other → other.Live → j < 4 := by
    refine hreach.invariant (I := fun s => (runners fun _ => 60).Reaches (· = {})
        (fun s a => InTime s a ∧ ReleasesAlone s a) s ∧
      ∀ j other, s.runs j = some other → other.Live → j < 4) ?_ ?_
    · rintro _ rfl
      exact ⟨.start rfl, fun j other hother => by cases hother⟩
    · rintro s t a - ⟨hs, hbelow⟩ ⟨htime, ha⟩ hstep
      obtain ⟨hrelease, hbelow'⟩ := releasesAlone_of_aloneBelow hbelow ha hstep
      exact ⟨hs.step ⟨htime, hrelease⟩ hstep, hbelow'⟩
  exact ⟨s, (leases_named _ halone.1).1, hholder, hphases⟩

/-- A run takes the lease; a trigger aborts it, and its successor takes the lease again; the aborted
run ends and releases it; and another runner takes it. -/
def releasedUnderSuccessor : List RunnerMove :=
  [.trigger "a" "c" 0, .acquire 0, .serveAcquire 0 0, .answer 0,
    .trigger "a" "c" 1, .acquire 1, .serveAcquire 1 10, .answer 1, .complete 0, .serveRelease 0,
    .trigger "b" "c" 2, .acquire 2, .serveAcquire 2 20, .answer 2]

/-- **Two runners at work on one conversation**: no lease has reached its expiry, and the runs `1`
of one runner and `2` of another are both live. -/
theorem two_live_runners : ¬ ∀ (leaseSeconds : String → ℤ) (s : RunnersState),
    (runners leaseSeconds).Reaches (· = {}) InTime s → LeasesNamed s := by
  intro hclaim
  have hrun : (((runners fun _ => 3600).runUnder InTime {} releasedUnderSuccessor).map fun s =>
      ((s.runs 1).map fun run => (run, decide run.Live), (s.runs 2).map fun run =>
        (run, decide run.Live), (s.leases "c").runnerHolder)) =
      some (some (⟨"a", "c", false, .working⟩, true), some (⟨"b", "c", false, .working⟩, true),
        some "b") := by
    decide +kernel
  obtain ⟨s, hs, hvalues⟩ := Option.map_eq_some_iff.1 hrun
  obtain ⟨hone, hrest⟩ := Prod.mk.inj hvalues
  obtain ⟨-, hlease⟩ := Prod.mk.inj hrest
  obtain ⟨run, hone, hvalue⟩ := Option.map_eq_some_iff.1 hone
  obtain ⟨rfl, hlive⟩ := Prod.mk.inj hvalue
  have hnamed := hclaim _ s (Machine.Reaches.runUnder (.start rfl) hs) 1 _ hone
    (of_decide_eq_true hlive)
  rw [hlease] at hnamed
  exact absurd hnamed (by decide)

end Munin
