import Munin.Outreach.ProposalSessions

/-!
# A proposal is delivered at most once

The operations on a proposal check its status in one statement and write it in another, so a
decision can land after the proposal was settled by someone else. This file proves what holds as
long as no decision does, and exhibits the run in which two approvals both deliver.

* **`LandsInTime`** — the condition on a statement: what delivers or writes a status finds the
  proposal still open, nothing is delivered while a placed call is unrecorded, and no transaction
  is rolled back after its call.
* **`Desk.Sound`** — the invariant, with one lemma for each kind of write.
* **`proposal_delivered_once`** — under the condition a proposal is delivered at most once, a
  terminal status is never left, and what was closed is never delivered.
-/

namespace Munin

open Foundations

/-! ### Where a statement lands -/

/-- The row is there and settled. -/
def Desk.Terminal (d : Desk) : Prop :=
  ∃ r ∈ d.row, r.proposal.status.terminal = true

/-- The row is there and still pending or approved. -/
def Desk.StillOpen (d : Desk) : Prop :=
  ∃ r ∈ d.row, r.proposal.status.terminal = false

/-- Still open, or already in the status about to be written. -/
def Desk.OpenOr (d : Desk) (status : ProposalStatus) : Prop :=
  ∃ r ∈ d.row, r.proposal.status.terminal = false ∨ r.proposal.status = status

instance (d : Desk) : Decidable d.StillOpen :=
  decidable_of_iff (d.row.any fun r => !r.proposal.status.terminal) (by
    simp [Desk.StillOpen, Option.any_eq_true])

instance (d : Desk) (status : ProposalStatus) : Decidable (d.OpenOr status) :=
  decidable_of_iff (d.row.any fun r =>
    !r.proposal.status.terminal || r.proposal.status = status) (by
    simp [Desk.OpenOr, Option.any_eq_true])

/-- The statement of a session lands in time: the proposal has not been settled since the session
read it, where the statement delivers or writes a status; a delivery does not overtake a call whose
result is unwritten; and a placed call is not rolled back. -/
def LandsInTime (_ : ℕ) (p : Point) (d : Desk) : Prop :=
  match p with
  | .approving _ _ _ at' env handing =>
    (at' ≠ none ∨ handing = .done → d.StillOpen) ∧
      (at' = none ∧ handing = .done → d.calling = none) ∧
      (at' = none ∧ handing = .lost → env.channel ≠ .voice)
  | .delivering _ env handing =>
    env.channel = .voice →
      (handing = .done → d.StillOpen ∧ d.calling = none) ∧ handing ≠ .lost
  | .recording _ env => d.StillOpen ∧ (env.channel ≠ .voice → d.calling = none)
  | .failing read _ terminal _ => givesUp read terminal = true → d.OpenOr .failed
  | .cancelling _ => d.StillOpen
  | .dismissing .. => d.OpenOr .dismissed
  | .withdrawing .. => d.OpenOr .withdrawn
  | _ => True

instance (t : ℕ) (p : Point) (d : Desk) : Decidable (LandsInTime t p d) := by
  cases p <;> dsimp only [LandsInTime] <;> infer_instance

theorem Desk.StillOpen.not_terminal {d : Desk} (h : d.StillOpen) : ¬ d.Terminal := by
  rintro ⟨r, hr, ht⟩
  obtain ⟨r', hr', ho⟩ := h
  obtain rfl : r = r' := Option.mem_unique hr hr'
  rw [ht] at ho
  cases ho

/-! ### The invariant -/

/-- **The invariant of a proposal's desk.** -/
structure Desk.Sound (d : Desk) : Prop where
  /-- There is at most one delivery. -/
  once : d.deliveries.length ≤ 1
  /-- A delivery whose result is written has settled the proposal. -/
  spent : d.deliveries ≠ [] → d.calling = none → d.Terminal
  /-- An unrecorded call is a delivery. -/
  placed : d.calling ≠ none → d.deliveries ≠ []
  /-- Nothing is delivered before the row is there. -/
  blank : d.row = none → d.deliveries = []
  /-- A closed proposal is settled. -/
  closed : ∀ st, .closed st ∈ d.history → d.Terminal
  /-- Nothing is delivered after the proposal was closed. -/
  quiet : ∀ pre st post, d.history = pre ++ .closed st :: post → .delivered ∉ post

/-- What a session knows while it stands at a point: a session that has placed a call and not
yet written its result is the one the desk names. -/
def Knows (t : ℕ) (p : Point) (d : Desk) : Prop :=
  match p with
  | .recording _ env => env.channel = .voice → d.calling = some t
  | _ => True

namespace Desk

variable {d : Desk}

theorem Sound.fresh : Desk.Sound {} where
  once := by simp
  spent h := absurd rfl h
  placed h := absurd rfl h
  blank _ := rfl
  closed st h := by cases h
  quiet pre st post h := by simp at h

/-- While a proposal is not settled and no call is unrecorded, nothing has been delivered. -/
theorem Sound.deliveries_eq_nil (h : d.Sound) (ho : ¬ d.Terminal) (hc : d.calling = none) :
    d.deliveries = [] := by
  by_contra hne
  exact ho (h.spent hne hc)

/-- While a proposal is not settled it has not been closed. -/
theorem Sound.not_closed (h : d.Sound) (ho : ¬ d.Terminal) (st : ProposalStatus) :
    .closed st ∉ d.history :=
  fun hst => ho (h.closed st hst)

/-- Closing leaves every delivery before it. -/
private theorem quiet_concat {history : List Event} {e : Event}
    (h : ∀ pre st post, history = pre ++ .closed st :: post → .delivered ∉ post)
    (he : e = .delivered → ∀ st, .closed st ∉ history) :
    ∀ pre st post, history ++ [e] = pre ++ .closed st :: post → .delivered ∉ post := by
  intro pre st post heq
  rcases List.eq_nil_or_concat post with rfl | ⟨post, x, rfl⟩
  · exact List.not_mem_nil
  · rw [List.concat_eq_append] at heq ⊢
    rw [← List.cons_append, ← List.append_assoc] at heq
    obtain ⟨hinit, hlast⟩ := List.append_inj' heq rfl
    obtain rfl : e = x := by simpa using hlast
    simp only [List.mem_append, List.mem_singleton, not_or]
    refine ⟨h pre st post hinit, fun hx => he hx.symm st ?_⟩
    rw [hinit]
    simp

variable {f : Row → Row} {r : Row}

/-- **Writes that keep the status** keep the invariant. -/
theorem Sound.update_keep (h : d.Sound)
    (hf : ∀ r, (f r).proposal.status = r.proposal.status) : (d.update f).Sound := by
  have hterm : d.Terminal → (d.update f).Terminal := by
    rintro ⟨r, hr, ht⟩
    exact ⟨f r, Option.mem_map_of_mem f hr, by rw [hf, ht]⟩
  exact ⟨h.once, fun h1 h2 => hterm (h.spent h1 h2), h.placed,
    fun hrow => h.blank (Option.map_eq_none_iff.1 hrow), fun st hst => hterm (h.closed st hst),
    h.quiet⟩

/-- **Writes on an open proposal** keep the invariant, as long as they deliver nothing. -/
theorem Sound.write_open (h : d.Sound) (ho : ¬ d.Terminal) (row : Row) :
    ({ d with row := some row } : Desk).Sound where
  once := h.once
  spent h1 h2 := absurd (h.deliveries_eq_nil ho h2) h1
  placed := h.placed
  blank hrow := by cases hrow
  closed st hst := absurd hst (h.not_closed ho st)
  quiet := h.quiet

/-- **Writes that settle the proposal** keep the invariant, wherever they land. -/
theorem Sound.update_settle (h : d.Sound)
    (hf : ∀ r, (f r).proposal.status.terminal = true) : (d.update f).Sound := by
  have hterm : d.Terminal → (d.update f).Terminal := by
    rintro ⟨r, hr, -⟩
    exact ⟨f r, Option.mem_map_of_mem f hr, hf r⟩
  exact ⟨h.once, fun h1 h2 => hterm (h.spent h1 h2), h.placed,
    fun hrow => h.blank (Option.map_eq_none_iff.1 hrow), fun st hst => hterm (h.closed st hst),
    h.quiet⟩

theorem update_eq (hr : r ∈ d.row) : d.update f = { d with row := some (f r) } := by
  rw [Desk.update, Option.mem_def.1 hr, Option.map_some]

theorem update_terminal (hrow : d.row ≠ none)
    (hf : ∀ r, (f r).proposal.status.terminal = true) : (d.update f).Terminal := by
  obtain ⟨r, hr⟩ := Option.ne_none_iff_exists'.1 hrow
  exact ⟨f r, Option.mem_map_of_mem f hr, hf r⟩

/-- **Closing** keeps the invariant. -/
theorem Sound.close {f : Proposal → Proposal} {st : ProposalStatus} (h : d.Sound)
    (hrow : d.row ≠ none) (hf : ∀ p, (f p).status.terminal = true) : (d.close st f).Sound := by
  have hsettled : (d.update (Row.map f)).Sound := h.update_settle fun r => hf r.proposal
  have hterm : (d.update (Row.map f)).Terminal :=
    update_terminal hrow fun r => hf r.proposal
  exact ⟨hsettled.once, fun _ _ => hterm, hsettled.placed, hsettled.blank, fun _ _ => hterm,
    quiet_concat h.quiet fun he => by cases he⟩

/-- A delivery on an open proposal with no call outstanding is the first one. -/
theorem Sound.quiet_delivered (h : d.Sound) (ho : ¬ d.Terminal) :
    ∀ pre st post, d.history ++ [.began, .delivered] = pre ++ .closed st :: post →
      .delivered ∉ post := by
  have hbegan := quiet_concat (e := .began) h.quiet fun he => by cases he
  have hclosed : ∀ st, .closed st ∉ d.history ++ [.began] := by
    intro st hst
    simp only [List.mem_append, List.mem_singleton, reduceCtorEq, or_false] at hst
    exact h.not_closed ho st hst
  have := quiet_concat (e := .delivered) hbegan fun _ => hclosed
  simpa only [List.append_assoc, List.cons_append, List.nil_append] using this

/-- **Delivering** an open proposal keeps the invariant. -/
theorem Sound.deliver {now : Instant} (h : d.Sound) (ho : ¬ d.Terminal)
    (hc : d.calling = none) : (d.deliver r now).Sound where
  once := by simp [Desk.deliver, h.deliveries_eq_nil ho hc]
  spent _ _ := ⟨r.map (markSent · now), rfl, rfl⟩
  placed hne := absurd hc hne
  blank hrow := by cases hrow
  closed _ _ := ⟨r.map (markSent · now), rfl, rfl⟩
  quiet := h.quiet_delivered ho

/-- **Placing a call** on an open proposal keeps the invariant, once the desk names the caller. -/
theorem Sound.call {t : ℕ} (h : d.Sound) (ho : d.StillOpen) (hc : d.calling = none) :
    ({ d.call r with calling := some t } : Desk).Sound where
  once := by simp [Desk.call, h.deliveries_eq_nil ho.not_terminal hc]
  spent _ hnone := by cases hnone
  placed _ := by simp [Desk.call]
  blank hrow := by
    obtain ⟨r, hr, -⟩ := ho
    cases hrow.symm.trans hr
  closed st hst := by
    simp only [Desk.call, List.mem_append, List.mem_cons, reduceCtorEq, List.not_mem_nil,
      or_false] at hst
    exact absurd hst (h.not_closed ho.not_terminal st)
  quiet := h.quiet_delivered ho.not_terminal

/-- **Beginning** to send a message keeps the invariant. -/
theorem Sound.begin (h : d.Sound) :
    ({ d with history := d.history ++ [.began] } : Desk).Sound where
  once := h.once
  spent := h.spent
  placed := h.placed
  blank := h.blank
  closed st hst := by
    simp only [List.mem_append, List.mem_singleton, reduceCtorEq, or_false] at hst
    exact h.closed st hst
  quiet := quiet_concat h.quiet fun he => by cases he

end Desk

/-! ### Every statement keeps the invariant -/

section Statements

variable {sha256Hex : String → String} {t : ℕ} {p : Point} {d : Desk}

/-- Inserting a proposal that nobody has seen keeps the invariant. -/
private theorem propose_sound {row : Proposal} {auto : Option AutoApproval} (hd : d.Sound)
    (hrow : d.row = none) : (d.propose row auto).Sound := by
  have hterm : ¬ d.Terminal := by
    rintro ⟨r, hr, -⟩
    cases hrow.symm.trans hr
  have hc : d.calling = none := by
    by_contra hne
    exact hd.placed hne (hd.blank hrow)
  unfold Desk.propose
  split
  · exact hd.write_open hterm _
  · split
    · exact hd.write_open hterm _
    · split
      · exact hd
      · exact hd.write_open hterm _
      · split
        · exact hd.deliver hterm hc
        · exact hd
        · exact hd

variable {env : Surroundings}

/-- An approval that lands in time keeps the invariant. -/
private theorem approve_sound {r : Row} {read : Proposal} {fingerprint : String} {actor : Actor}
    {at' : Option Instant} {handing : Handover} (hd : d.Sound)
    (hok : LandsInTime t (.approving read fingerprint actor at' env handing) d) :
    (d.approve r fingerprint actor at' env handing).Sound := by
  obtain ⟨hopen, hcalling, hlost⟩ := hok
  cases at' with
  | some at' => exact hd.write_open (hopen (.inl (by simp))).not_terminal _
  | none =>
    cases handing with
    | done => exact hd.deliver (hopen (.inr rfl)).not_terminal (hcalling ⟨rfl, rfl⟩)
    | refused => exact hd
    | lost =>
      rw [Desk.approve, if_neg (hlost ⟨rfl, rfl⟩)]
      exact hd

/-- Going on from a read keeps the invariant; every point it may lead to knows nothing yet. -/
private theorem read_sound {k : Row → Option Point} (hd : d.Sound)
    (hk : ∀ r q, k r = some q → Knows t q d) :
    (d.read k).1.Sound ∧ ∀ q, (d.read k).2 = some q → Knows t q (d.read k).1 := by
  refine ⟨hd, fun q hq => ?_⟩
  obtain ⟨r, -, hr⟩ := Option.bind_eq_some_iff.1 hq
  exact hk r q hr

/-- A statement that ends its session owes only the invariant. -/
private theorem last_sound {d' : Desk} (hd : d'.Sound) :
    d'.Sound ∧ ∀ q, (none : Option Point) = some q → Knows t q d' :=
  ⟨hd, fun _ hq => by cases hq⟩

/-- Beginning a delivery in time keeps the invariant. -/
private theorem delivering_sound {read : Row} {handing : Handover}
    (hd : d.Sound) (hok : LandsInTime t (.delivering read env handing) d) :
    ((Point.delivering read env handing).exec sha256Hex t d).1.Sound ∧
      ∀ q, ((Point.delivering read env handing).exec sha256Hex t d).2 = some q →
        Knows t q ((Point.delivering read env handing).exec sha256Hex t d).1 := by
  delta Point.exec
  dsimp only
  split
  · exact last_sound hd
  · rename_i hvoice
    obtain ⟨hopen, hcalling⟩ := (hok hvoice).1 rfl
    refine ⟨hd.call hopen hcalling, ?_⟩
    rintro q ⟨⟩ -
    rfl
  · rename_i hvoice
    exact absurd rfl (hok hvoice).2
  · rename_i hmessage
    refine ⟨hd.begin, ?_⟩
    rintro q ⟨⟩ hvoice
    exact absurd hvoice hmessage
  · exact last_sound hd.begin

/-- Writing the result of a delivery in time keeps the invariant. -/
private theorem recording_sound {read : Row} (hd : d.Sound)
    (hk : Knows t (.recording read env) d) (hok : LandsInTime t (.recording read env) d) :
    ((Point.recording read env).exec sha256Hex t d).1.Sound := by
  obtain ⟨hopen, hcalling⟩ := hok
  have hrow : d.row ≠ none := by
    obtain ⟨r, hr, -⟩ := hopen
    exact Option.ne_none_iff_exists'.2 ⟨r, hr⟩
  have hsent : (d.update (Row.map (markSent · env.now))).Terminal :=
    Desk.update_terminal hrow fun _ => rfl
  have hsettled : (d.update (Row.map (markSent · env.now))).Sound :=
    hd.update_settle fun _ => rfl
  delta Point.exec
  dsimp only
  split
  · rename_i hvoice
    have hcall : d.calling = some t := hk hvoice
    exact ⟨hsettled.once, fun _ _ => hsent, fun h => absurd rfl h, hsettled.blank, fun _ _ => hsent,
      hsettled.quiet⟩
  · rename_i hmessage
    have hnil := hd.deliveries_eq_nil hopen.not_terminal (hcalling hmessage)
    refine ⟨?_, fun _ _ => hsent, ?_, ?_, fun _ _ => hsent, ?_⟩
    · simp [hnil]
    · exact fun h => absurd (hcalling hmessage) h
    · exact fun h => absurd (Option.map_eq_none_iff.1 h) hrow
    · exact Desk.quiet_concat hd.quiet fun _ => hd.not_closed hopen.not_terminal

/-- **Step lemma.** A statement that lands in time keeps the invariant, and leaves its session at
a point whose knowledge holds. -/
theorem exec_sound (hd : d.Sound) (hk : Knows t p d) (hok : LandsInTime t p d) :
    (p.exec sha256Hex t d).1.Sound ∧
      ∀ q, (p.exec sha256Hex t d).2 = some q → Knows t q (p.exec sha256Hex t d).1 := by
  have hrow : ∀ {st}, d.OpenOr st → d.row ≠ none := by
    rintro st ⟨r, hr, -⟩
    exact Option.ne_none_iff_exists'.2 ⟨r, hr⟩
  cases p with
  | propose row auto =>
    delta Point.exec
    dsimp only
    split
    · exact last_sound hd
    · exact last_sound (propose_sound hd ‹_›)
  | approveProposal fingerprint sendAt actor env handing =>
    refine read_sound hd fun r q hq => ?_
    split at hq <;> cases hq
    exact trivial
  | approving read fingerprint actor at' env handing =>
    delta Point.exec
    dsimp only
    split
    · exact last_sound hd
    · exact last_sound (approve_sound hd hok)
  | sendScheduledProposal env handing =>
    refine read_sound hd fun r q hq => ?_
    split_ifs at hq
    split at hq <;> cases hq <;> exact trivial
  | deferring until' now => exact last_sound (hd.update_keep fun _ => rfl)
  | delivering read env handing => exact delivering_sound hd hok
  | recording read env =>
    refine ⟨recording_sound hd hk hok, fun q hq => ?_⟩
    simp only [Point.exec] at hq
    split at hq <;> cases hq
  | recordScheduledSendFailure reason terminal now =>
    refine read_sound hd fun r q hq => ?_
    cases hq
    exact trivial
  | failing read reason terminal now =>
    refine last_sound ?_
    cases hgive : givesUp read terminal with
    | true => exact hd.update_settle fun r => by simp [Row.map, recordFailure, hgive,
        ProposalStatus.terminal]
    | false => exact hd.update_keep fun r => by simp [Row.map, recordFailure, hgive]
  | cancelScheduledSend reason now =>
    refine read_sound hd fun r q hq => ?_
    split_ifs at hq
    cases hq
    exact trivial
  | cancelling now =>
    obtain ⟨r, hr, -⟩ := id hok
    have hwrite : (d.update fun r => ⟨unschedule r.proposal now, none⟩).Sound := by
      rw [Desk.update_eq hr]
      exact hd.write_open (Desk.StillOpen.not_terminal hok) _
    exact last_sound hwrite
  | dismissProposal reason actor now =>
    refine read_sound hd fun r q hq => ?_
    split_ifs at hq
    cases hq
    exact trivial
  | dismissing reason actor now => exact last_sound (hd.close (hrow hok) fun _ => rfl)
  | withdrawProposal reason actor now =>
    refine read_sound hd fun r q hq => ?_
    split_ifs at hq
    cases hq
    exact trivial
  | withdrawing reason actor now => exact last_sound (hd.close (hrow hok) fun _ => rfl)
  | applyRevision revision actor now =>
    refine read_sound hd fun r q hq => ?_
    split at hq <;> cases hq
    exact trivial
  | revising read revision actor now => exact last_sound (hd.update_keep fun _ => rfl)
  | withdrawRun enrollmentId reason now =>
    delta Point.exec
    dsimp only
    split
    · exact last_sound hd
    · split
      · rename_i r hr _
        exact last_sound (hd.close (by simp [hr]) fun _ => rfl)
      · exact last_sound hd

/-- A statement that lands in time does not take the desk away from another caller. -/
theorem exec_calling {u : ℕ} (hk : Knows t p d) (hok : LandsInTime t p d) (hu : u ≠ t)
    (hc : d.calling = some u) : (p.exec sha256Hex t d).1.calling = some u := by
  cases p with
  | propose row auto =>
    delta Point.exec
    dsimp only
    split
    · exact hc
    · unfold Desk.propose
      repeat' split
      all_goals exact hc
  | approving read fingerprint actor at' env handing =>
    delta Point.exec
    dsimp only
    split
    · exact hc
    · unfold Desk.approve
      repeat' split
      all_goals exact hc
  | delivering read env handing =>
    delta Point.exec
    dsimp only
    split
    · exact hc
    · rename_i hvoice
      rw [((hok hvoice).1 rfl).2] at hc
      cases hc
    all_goals exact hc
  | recording read env =>
    delta Point.exec
    dsimp only
    split
    · rename_i hvoice
      rw [hk hvoice] at hc
      exact absurd (Option.some.inj hc).symm hu
    · exact hc
  | withdrawRun enrollmentId reason now =>
    delta Point.exec
    dsimp only
    repeat' split
    all_goals exact hc
  | _ => exact hc

/-- **A statement that lands in time leaves a terminal status alone.** -/
theorem exec_terminal {r : Row} (hok : LandsInTime t p d) (hr : r ∈ d.row)
    (hterm : r.proposal.status.terminal = true) :
    ∃ r' ∈ (p.exec sha256Hex t d).1.row, r'.proposal.status = r.proposal.status := by
  have hshut : ¬ d.StillOpen := fun ho => ho.not_terminal ⟨r, hr, hterm⟩
  have hsame : ∀ {st}, d.OpenOr st → r.proposal.status = st := by
    rintro st ⟨r', hr', h⟩
    obtain rfl := Option.mem_unique hr hr'
    rcases h with h | h
    · rw [hterm] at h
      cases h
    · exact h
  have hkeep : ∀ f : Row → Row, (f r).proposal.status = r.proposal.status →
      ∃ r' ∈ (d.update f).row, r'.proposal.status = r.proposal.status :=
    fun f hf => ⟨f r, Option.mem_map_of_mem f hr, hf⟩
  cases p with
  | propose row auto =>
    simp only [Point.exec, Option.mem_def.1 hr]
    exact ⟨r, rfl, rfl⟩
  | approving read fingerprint actor at' env handing =>
    obtain ⟨hopen, -, hlost⟩ := hok
    simp only [Point.exec, Option.mem_def.1 hr]
    unfold Desk.approve
    split
    · exact absurd (hopen (.inl (by simp))) hshut
    · exact absurd (hopen (.inr rfl)) hshut
    · exact ⟨r, hr, rfl⟩
    · rw [if_neg (hlost ⟨rfl, rfl⟩)]
      exact ⟨r, hr, rfl⟩
  | deferring until' now => exact hkeep _ rfl
  | delivering read env handing =>
    delta Point.exec
    dsimp only
    split <;> exact ⟨r, hr, rfl⟩
  | recording read env => exact absurd hok.1 hshut
  | failing read reason terminal now =>
    refine hkeep _ ?_
    cases hgive : givesUp read terminal with
    | true => simp [Row.map, recordFailure, hgive, hsame (hok hgive)]
    | false => simp [Row.map, recordFailure, hgive]
  | cancelling now => exact absurd hok hshut
  | dismissing reason actor now => exact hkeep _ (hsame hok).symm
  | withdrawing reason actor now => exact hkeep _ (hsame hok).symm
  | revising read revision actor now => exact hkeep _ rfl
  | withdrawRun enrollmentId reason now =>
    simp only [Point.exec, Option.mem_def.1 hr, hterm, Bool.true_eq_false, and_false, if_false]
    exact ⟨r, rfl, rfl⟩
  | _ => exact ⟨r, hr, rfl⟩

end Statements

/-! ### Runs -/

/-- The proof outline of the sessions on a proposal. -/
theorem proposal_outline (sha256Hex : String → String) :
    (proposalSessions sha256Hex).PointOutline Desk.fresh LandsInTime Desk.Sound Knows where
  start := by
    rintro _ rfl
    exact .fresh
  entry t p d hentry _ := by
    cases p with
    | recording read env => simp [proposalSessions, Point.isEntry] at hentry
    | _ => exact trivial
  exec t p d d' q hd hk hok hexec := by
    obtain ⟨rfl, rfl⟩ := Prod.mk.inj (Option.some.inj hexec)
    exact exec_sound hd hk hok
  stable t p d d' q hd hk hok hexec u r hu hr := by
    obtain ⟨rfl, rfl⟩ := Prod.mk.inj (Option.some.inj hexec)
    cases r with
    | recording read env => exact fun hvoice => exec_calling hk hok hu (hr hvoice)
    | _ => exact trivial

/-- **At most once, and never after a refusal.** In every state reached by statements that land in
time: the proposal has been delivered at most once; nothing was delivered after the proposal was
dismissed or withdrawn; and the next statement that lands in time leaves a terminal status as it
is. -/
theorem proposal_delivered_once (sha256Hex : String → String) {w : Sessions.World Desk Point}
    (h : (proposalSessions sha256Hex).Reaches Desk.fresh LandsInTime w) :
    w.store.deliveries.length ≤ 1 ∧
    (∀ pre st post, w.store.history = pre ++ .closed st :: post → .began ∉ pre →
      .delivered ∉ post) ∧
    ∀ m w', Sessions.guard LandsInTime w m →
      (proposalSessions sha256Hex).machine.step w m = some w' →
      ∀ r ∈ w.store.row, r.proposal.status.terminal = true →
        ∃ r' ∈ w'.store.row, r'.proposal.status = r.proposal.status := by
  have hsound := (Sessions.reaches_outline (proposal_outline sha256Hex).outline h).1
  refine ⟨hsound.once, fun pre st post heq _ => hsound.quiet pre st post heq, ?_⟩
  rintro (⟨t, p⟩ | t) w' hok hstep r hr hterm
  · obtain ⟨-, -, rfl⟩ := Sessions.step_call _ hstep
    exact ⟨r, hr, rfl⟩
  · obtain ⟨p, d', q, hp, hexec, rfl⟩ := Sessions.step_exec _ hstep
    obtain ⟨rfl, rfl⟩ := Prod.mk.inj (Option.some.inj hexec)
    exact exec_terminal (hok p hp) hr hterm

/-! ### Two runs -/

/-- A first-touch email waiting for its approval. -/
def sampleProposal : Proposal where
  id := "oprp_1"
  campaignId := some "ocam_1"
  contactId := "ccon_1"
  kind := "initial"
  draftSubject := some "Hello"
  draftBody := "Hi there"

/-- SHA-256, on the one text that the runs below hash. -/
def sampleDigest (text : String) : String :=
  if text = "[\"ocam_1\",\"ccon_1\",\"initial\",\"Hello\",\"Hi there\",null]" then
    "6efc9cfc5437fe06bccc21599cc6f73d8071553ce84728a8227d563231ea7acd"
  else ""

/-- A signed-in person's approval of the sample as it reads. -/
def sampleApproval (sendAt : SendAtChoice) : Point :=
  .approveProposal "6efc9cfc5437fe06bccc21599cc6f73d" sendAt ⟨.user, "usr_1"⟩ {} .done

/-- An approval for later, then the send worker. -/
def scheduledSend : List (Sessions.Move Point) :=
  [.call 0 (.propose sampleProposal none), .exec 0,
    .call 1 (sampleApproval (.at (some 60000))), .exec 1, .exec 1,
    .call 2 (.sendScheduledProposal { now := 60000 } .done), .exec 2, .exec 2, .exec 2]

theorem proposal_delivered_once_scheduled :
    ∃ w, (proposalSessions sampleDigest).Reaches Desk.fresh LandsInTime w ∧
      w.store.deliveries.length = 1 ∧ w.store.deliveries.length ≤ 1 := by
  obtain ⟨w, hw, hone⟩ := Sessions.exists_reaches (proposalSessions sampleDigest)
    Desk.fresh LandsInTime (s := {}) rfl scheduledSend
    (f := fun w => w.store.deliveries.length) (v := 1) (by decide)
  exact ⟨w, hw, hone, (proposal_delivered_once sampleDigest hw).1⟩

/-- Two people approve at once: both read the pending row before either writes it. -/
def twoApprovals : List (Sessions.Move Point) :=
  [.call 0 (.propose sampleProposal none), .exec 0,
    .call 1 (sampleApproval .omitted), .exec 1, .call 2 (sampleApproval .omitted), .exec 2,
    .exec 1, .exec 2]

/-- **Two concurrent approvals deliver the proposal twice.** -/
theorem two_approvals_deliver_twice :
    ∃ w, (proposalSessions sampleDigest).machine.run (.idle {}) twoApprovals = some w ∧
      ¬ w.store.deliveries.length ≤ 1 := by
  obtain ⟨w, hw, htwo⟩ := Option.map_eq_some_iff.1 (show
    ((proposalSessions sampleDigest).machine.run (.idle {}) twoApprovals).map
      (fun w => w.store.deliveries.length) = some 2 by decide)
  exact ⟨w, hw, by simp [htwo]⟩

end Munin
