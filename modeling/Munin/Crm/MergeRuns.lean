import Munin.Crm.MergeSteps

/-!
# Runs of merges

* **`MergesSettled`** — the invariant of the calls and the database that they work on.
* **`merges_strand_nothing`** — without overlaps nothing is stranded, however the calls interleave.
* **`overlapping_merges_strand`** — one overlap is enough to strand a row.
-/

namespace Munin

open Foundations

section Footprint

variable {db db' : MergeDb} {t : ℕ} {point point' : MergePoint}

theorem footprint_updateProposals {p : MergeProposal → Bool} {f : MergeProposal → MergeProposal}
    {here : Option (List ℕ) → MergePoint} {goal : MergePoint} {found : Option (List ℕ)}
    {fp : Option Footprint} (hhere : ∀ is, (here is).footprint = fp) (hgoal : goal.footprint = fp)
    (h : MergePoint.updateProposals t p f here goal db found = some (db', some point')) :
    point'.footprint = fp := by
  match found with
  | none =>
    cases h
    exact hhere _
  | some [] =>
    cases h
    exact hgoal
  | some (i :: is) =>
    obtain ⟨db'', -, heq⟩ := Option.map_eq_some_iff.1 h
    cases heq
    exact hhere _

/-- A statement leads to the footprint that was foreseen. -/
theorem footprint_after (h : MergePoint.exec t point db = some (db', some point')) :
    point'.footprint = point.footprintAfter t db := by
  cases point with
  | propose input fails =>
    simp only [MergePoint.exec] at h
    split at h
    · cases h
    · split at h
      · split at h
        · cases h
        · split at h <;> cases h
          rfl
      · cases h
  | proposeApplied input fails =>
    simp only [MergePoint.exec] at h
    split at h <;> cases h
    rfl
  | proposePending input fails =>
    simp only [MergePoint.exec] at h
    split at h <;> cases h <;> rfl
  | proposeUpdate input fails id found =>
    exact footprint_updateProposals (fun _ => rfl) rfl h
  | proposeInsert input fails =>
    simp only [MergePoint.exec] at h
    split at h
    · cases h
    · obtain ⟨⟨proposals, done⟩, -, heq⟩ := Option.map_eq_some_iff.1 h
      cases done <;> cases heq
      rfl
  | proposeCommit input fails => cases h
  | applyRead id fingerprint env fails =>
    simp only [MergePoint.exec] at h
    split at h
    · cases h
    · rename_i p hp
      split at h <;> cases h
      rw [MergePoint.footprintAfter, hp]
      rfl
  | applyContacts p env fails =>
    simp only [MergePoint.exec] at h
    split at h <;> cases h
    rfl
  | apply call fails stmt found =>
    have hafter : (MergePoint.afterStmt call fails stmt).footprint =
        some (.merge call.keeperId call.duplicateId) := by
      cases stmt <;> rfl
    simp only [MergePoint.exec] at h
    split at h
    · cases h
      exact hafter
    · cases h
      exact hafter
    · split at h <;> cases h
      rfl
    · obtain ⟨db'', -, heq⟩ := Option.map_eq_some_iff.1 h
      cases heq
      rfl
  | applyCommit call => cases h
  | dismiss id reason fails =>
    simp only [MergePoint.exec] at h
    split at h
    · cases h
    · split at h <;> cases h
      rfl
  | dismissUpdate p reason fails found =>
    exact footprint_updateProposals (fun _ => rfl) rfl h
  | dismissCommit p fails =>
    simp only [MergePoint.exec] at h
    split at h <;> cases h

end Footprint

/-! ### The invariant of a run -/

/-- **The invariant of the calls**: what holds of the database, of each call at work and of what
calls that are over have left, and no two calls at work overlap. -/
structure MergesSettled (start : MergeDb) (w : Sessions.World MergeDb MergePoint) : Prop where
  inv : MergeInv start w.store
  points : ∀ t point, w.live t = some point → PointOk (w.store.sight t) point
  idle : ∀ t, w.live t = none → WritesFor none (w.store.sight t)
  apart : ∀ t u p q f g, t ≠ u → w.live t = some p → w.live u = some q → p.footprint = some f →
    q.footprint = some g → ¬ Overlaps f g

section Run

variable {start : MergeDb} {w w' : Sessions.World MergeDb MergePoint} {t : ℕ}

/-- After the end of a transaction it has written nothing. -/
theorem writesFor_of_nothing {s : MergeSight} (hcontacts : ∀ i, s.contacts.own i = none)
    (hrows : ∀ i, s.rows.own i = none) (hproposals : ∀ i, s.proposals.own i = none) :
    WritesFor none s where
  contacts i c hc := by
    rw [hcontacts i] at hc
    cases hc
  rows i row hrow := by
    rw [hrows i] at hrow
    cases hrow
  ids i p q hp := by
    rw [hproposals i] at hp
    cases hp
  pending i p hp := by
    rw [hproposals i] at hp
    cases hp

variable {next : Option MergePoint}

/-- The other calls, after a step of one. -/
theorem MergesSettled.others (h : MergesSettled start w) {db : MergeDb} (hinv : MergeInv start db)
    (hpoints : ∀ u, u ≠ t → ∀ point, w.live u = some point → PointOk (db.sight u) point)
    (hidle : ∀ u, u ≠ t → w.live u = none → WritesFor none (db.sight u))
    (hself : ∀ point, next = some point → PointOk (db.sight t) point)
    (hover : next = none → WritesFor none (db.sight t))
    (hapart : ∀ point f, next = some point → point.footprint = some f → ∀ u q g, u ≠ t →
      w.live u = some q → q.footprint = some g → ¬ Overlaps f g) :
    MergesSettled start ⟨db, Function.update w.live t next⟩ := by
  have hlive : ∀ u, u ≠ t → Function.update w.live t next u = w.live u := fun u hu =>
    Function.update_of_ne hu _ _
  have hmoved : Function.update w.live t next t = next := Function.update_self ..
  refine
    { inv := hinv, points := fun u q hq => ?_, idle := fun u hu => ?_
      apart := fun u v p q f g huv hp hq hf hg => ?_ }
  · by_cases hu : u = t
    · subst hu
      exact hself q (hmoved.symm.trans hq)
    · exact hpoints u hu q ((hlive u hu).symm.trans hq)
  · by_cases hut : u = t
    · subst hut
      exact hover (hmoved.symm.trans hu)
    · exact hidle u hut ((hlive u hut).symm.trans hu)
  · by_cases hu : u = t
    · subst hu
      have hq' := (hlive v huv.symm).symm.trans hq
      exact hapart p f (hmoved.symm.trans hp) hf v q g huv.symm hq' hg
    · have hp' := (hlive u hu).symm.trans hp
      by_cases hv : v = t
      · subst hv
        exact fun hover => hapart q g (hmoved.symm.trans hq) hg u p f hu hp' hf (Overlaps.symm hover)
      · exact h.apart u v p q f g huv hp' ((hlive v hv).symm.trans hq) hf hg

/-- A call that is opened has written nothing and is about no contacts yet. -/
theorem MergesSettled.call (h : MergesSettled start w) {point : MergePoint}
    (hentry : point.entry = true) (hidle : w.live t = none) :
    MergesSettled start { w with live := Function.update w.live t (some point) } := by
  have hfp : point.footprint = none := by
    cases point <;> first | rfl | cases hentry
  refine h.others h.inv (fun u _ => h.points u) (fun u _ => h.idle u) ?_ (fun hnone => by cases hnone)
    ?_
  · rintro _ ⟨⟩
    refine ⟨fun f hf => ?_, hfp ▸ h.idle t hidle, ?_⟩
    · rw [hfp] at hf
      cases hf
    · cases point <;> trivial
  · rintro _ f ⟨⟩ hf
    rw [hfp] at hf
    cases hf

/-- **A statement keeps the invariant.** -/
theorem MergesSettled.exec (h : MergesSettled start w) {point : MergePoint} {db : MergeDb}
    (hlive : w.live t = some point) (hok : MergesApart w (.exec t))
    (hexec : MergePoint.exec t point w.store = some (db, next)) :
    MergesSettled start ⟨db, Function.update w.live t next⟩ := by
  obtain ⟨hpatch, hfree⟩ := hok point hlive
  have hpoint := h.points t point hlive
  have hothers : ∀ {db}, QuietFor t w.store db → (∀ u, u ≠ t → ∀ q, w.live u = some q →
      PointOk (db.sight u) q) ∧ ∀ u, u ≠ t → w.live u = none → WritesFor none (db.sight u) :=
    fun hquiet =>
      ⟨fun u hu q hq => (hquiet.others u hu).symm ▸ h.points u q hq,
        fun u hu hidle => (hquiet.others u hu).symm ▸ h.idle u hidle⟩
  rcases exec_cases h.inv hpoint hpatch hexec with
    ⟨point', rfl, hquiet, hpoint'⟩ | ⟨rfl, rfl⟩ | ⟨rfl, rfl, hdone⟩
  · obtain ⟨hpoints, hidle⟩ := hothers hquiet
    refine h.others (hquiet.inv h.inv) hpoints hidle ?_ (fun hnone => by cases hnone) ?_
    · rintro _ ⟨⟩
      exact hpoint'
    · rintro _ f ⟨⟩ hf
      exact hfree f (footprint_after hexec ▸ hf)
  · obtain ⟨hpoints, hidle⟩ := hothers (QuietFor.abort w.store t)
    refine h.others ((QuietFor.abort w.store t).inv h.inv) hpoints hidle
      (fun q hq => by cases hq) (fun _ => ?_) (fun q f hq => by cases hq)
    refine writesFor_of_nothing (fun i => ?_) (fun i => ?_) fun i => ?_
    · exact (TxTable.own_abort _ t t i).trans (if_pos rfl)
    · exact (TxTable.own_abort _ t t i).trans (if_pos rfl)
    · exact (TxTable.own_abort _ t t i).trans (if_pos rfl)
  · refine h.others (h.inv.commit hpoint.writes hpoint.stands hdone) (fun u hu q hq => ?_)
      (fun u hu hidle => (h.idle u hidle).commit hu) (fun q hq => by cases hq) (fun _ => ?_)
      (fun q f hq => by cases hq)
    · exact (h.points u q hq).commit hpoint.writes h.inv.names hu fun f g hf hg =>
        h.apart t u point q f g hu.symm hlive hq hf hg
    · refine writesFor_of_nothing (fun i => ?_) (fun i => ?_) fun i => ?_
      · exact (TxTable.own_commit _ t t i).trans (if_pos rfl)
      · exact (TxTable.own_commit _ t t i).trans (if_pos rfl)
      · exact (TxTable.own_commit _ t t i).trans (if_pos rfl)

theorem MergeDb.Fresh.inv (h : start.Fresh) : MergeInv start start where
  law := by
    refine ⟨h.acyclic, fun i => ?_⟩
    cases hrow : start.rows.com i with
    | none => exact .none
    | some row => exact .some ⟨rfl, fun _ => .inl rfl, fun ref x => h.unmerged i row ref x hrow⟩
  ids := h.ids
  distinct := h.distinct
  pending i p hp := by
    rw [h.proposals] at hp
    cases hp
  names i j p q hp := by
    rw [h.proposals] at hp
    rcases hp with hp | ⟨u, hp⟩ <;> cases hp

theorem MergeDb.Fresh.settled (h : start.Fresh) :
    MergesSettled start (Sessions.World.idle start) where
  inv := h.inv
  points t point hlive := by cases hlive
  idle t _ := writesFor_of_nothing (h.contacts t) (h.rows t) fun i => by
    change start.proposals.own t i = none
    rw [h.proposals]
    rfl
  apart t u p q f g _ hp := by cases hp

end Run

/-- **Merges that do not overlap strand nothing**: in every state of every run, the links of merged
contacts form no cycle, and every row is still there, with no contact that was merged away. -/
theorem merges_strand_nothing {start : MergeDb} (hstart : start.Fresh)
    {w : Sessions.World MergeDb MergePoint}
    (h : mergeSessions.machine.Reaches (· = Sessions.World.idle start) MergesApart w) :
    StrandsNothing start w.store := by
  refine (h.invariant (I := MergesSettled start) ?_ ?_).inv.law
  · rintro _ rfl
    exact hstart.settled
  · rintro w w' (⟨t, point⟩ | t) - hI hok hstep
    · obtain ⟨hentry, hidle, rfl⟩ := mergeSessions.step_call hstep
      exact hI.call hentry hidle
    · obtain ⟨point, db, next, hlive, hexec, rfl⟩ := mergeSessions.step_exec hstep
      exact hI.exec hlive hok hexec

/-! ### Runs of calls one after the other -/

/-- One of `n` calls works at a time. -/
def OneByOne (n : ℕ) (w : Sessions.World MergeDb MergePoint) : Sessions.Move MergePoint → Prop
  | .call t _ => t < n
  | .exec t => (∀ u < n, u ≠ t → (w.live u).isNone) ∧
    ∀ point ∈ w.live t, point.LinksNothing t w.store

instance (patch : Record) : Decidable (NamesNoLink patch) :=
  inferInstanceAs (Decidable (∀ f ∈ patch, f.1 = "customFields" → mergedIntoId f.2 = none))

instance (t : ℕ) (db : MergeDb) : ∀ point : MergePoint, Decidable (point.LinksNothing t db)
  | .applyRead id .. =>
    inferInstanceAs (Decidable (∀ p ∈ db.proposal t id, NamesNoLink p.recommendedPatch))
  | .propose .. | .proposeApplied .. | .proposePending .. | .proposeUpdate .. | .proposeInsert ..
  | .proposeCommit .. | .applyContacts .. | .apply .. | .applyCommit .. | .dismiss ..
  | .dismissUpdate .. | .dismissCommit .. => inferInstanceAs (Decidable True)

instance (n : ℕ) (w : Sessions.World MergeDb MergePoint) :
    ∀ m : Sessions.Move MergePoint, Decidable (OneByOne n w m)
  | .call t _ => inferInstanceAs (Decidable (t < n))
  | .exec t => inferInstanceAs (Decidable ((∀ u < n, u ≠ t → (w.live u).isNone) ∧
      ∀ point ∈ w.live t, point.LinksNothing t w.store))

/-- Calls one after the other do not overlap. -/
theorem reaches_of_oneByOne {start : MergeDb} {n : ℕ} {w : Sessions.World MergeDb MergePoint}
    (h : mergeSessions.machine.Reaches (· = Sessions.World.idle start) (OneByOne n) w) :
    mergeSessions.machine.Reaches (· = Sessions.World.idle start) MergesApart w ∧
      ∀ u, n ≤ u → w.live u = none := by
  induction h with
  | start hs =>
    subst hs
    exact ⟨.start rfl, fun _ _ => rfl⟩
  | @step w w' m _ hok hstep ih =>
    obtain ⟨hreach, hnone⟩ := ih
    match m with
    | .call t point =>
      have hcall : MergesApart w (.call t point) := trivial
      refine ⟨.step hreach hcall hstep, fun u hu => ?_⟩
      obtain ⟨-, -, rfl⟩ := mergeSessions.step_call hstep
      exact (Function.update_of_ne (fun heq => absurd hok (by rw [← heq]; exact hu.not_gt)) _ _).trans
        (hnone u hu)
    | .exec t =>
      have hapart : MergesApart w (.exec t) := by
        refine fun point hlive => ⟨hok.2 point hlive, fun f _ u other g hu hother => ?_⟩
        rcases Nat.lt_or_ge u n with hlt | hge
        · have hidle := hok.1 u hlt hu
          rw [hother] at hidle
          cases hidle
        · rw [hnone u hge] at hother
          cases hother
      refine ⟨.step hreach hapart hstep, fun u hu => ?_⟩
      obtain ⟨point, db, next, hlive, -, rfl⟩ := mergeSessions.step_exec hstep
      refine (Function.update_of_ne (fun heq => ?_) _ _).trans (hnone u hu)
      rw [← heq, hnone u hu] at hlive
      cases hlive

/-! ### Three contacts and an activity -/

/-- Three contacts, and an activity of the second one. -/
def sampleContacts : MergeDb where
  contacts := [⟨some { id := "a" }, none⟩, ⟨some { id := "b" }, none⟩, ⟨some { id := "c" }, none⟩]
  rows := [⟨some (.activity "call" (some "b")), none⟩]

theorem sampleContacts_fresh : sampleContacts.Fresh := by
  have hcontact : ∀ i c, sampleContacts.contacts.com i = some c →
      c.mergedInto = none ∧ (i = 0 ∧ c.id = "a" ∨ i = 1 ∧ c.id = "b" ∨ i = 2 ∧ c.id = "c") := by
    intro i c hc
    rcases i with _ | _ | _ | i <;> cases hc <;> decide
  have hno : ∀ a b, ¬ LinksTo sampleContacts.contacts.com a b := by
    rintro a b ⟨i, c, hc, -, hinto⟩
    rw [(hcontact i c hc).1] at hinto
    cases hinto
  refine
    { contacts := fun t i => ?_, rows := fun t i => ?_, proposals := rfl
      ids := fun i c hc => ?_, distinct := fun i j c d hc hd hid => ?_
      acyclic := fun a hpath => ?_, unmerged := fun _ _ _ x _ _ ⟨b, hlink⟩ => hno x b hlink }
  · rcases i with _ | _ | _ | i <;> rfl
  · rcases i with _ | i <;> rfl
  · rcases (hcontact i c hc).2 with ⟨-, hid⟩ | ⟨-, hid⟩ | ⟨-, hid⟩ <;> rw [hid] <;> decide
  · rcases (hcontact i c hc).2 with ⟨rfl, ha⟩ | ⟨rfl, ha⟩ | ⟨rfl, ha⟩ <;>
      rcases (hcontact j d hd).2 with ⟨rfl, hb⟩ | ⟨rfl, hb⟩ | ⟨rfl, hb⟩ <;>
      first | rfl | (rw [ha, hb] at hid; exact absurd hid (by decide))
  · cases hpath with
    | single hlink => exact hno _ _ hlink
    | tail _ hlink => exact hno _ _ hlink

/-- A session's call, and as many statements of it. -/
def callFor (t : ℕ) (point : MergePoint) (n : ℕ) : List (Sessions.Move MergePoint) :=
  .call t point :: List.replicate n (.exec t)

def sampleMergeEnv : MergeEnv where
  mergeFingerprint _ := "fingerprint"
  parseDate _ := none
  mergedAt := "2026-01-01T00:00:00.000Z"
  archiveMonth := "2026-01"

/-- The second contact is merged into the first, and the first into the third. -/
def sampleProposals : List (Sessions.Move MergePoint) :=
  callFor 0 (.propose
    { contactAId := "a", contactBId := "b", confidence := "high", recommendedKeeperId := "a"
      newId := "p" } false) 5 ++
  callFor 1 (.propose
    { contactAId := "a", contactBId := "c", confidence := "high", recommendedKeeperId := "c"
      newId := "q" } false) 5

/-- What becomes of the activity, and of the first contact. -/
def sampleOutcome (w : Sessions.World MergeDb MergePoint) : Option String × Option String :=
  ((w.store.rows.com 0).bind (·.contact .activity), (w.store.contacts.com 0).bind (·.mergedInto))

/-- The merges, one after the other. -/
theorem merges_strand_nothing_sample :
    ∃ w, StrandsNothing sampleContacts w.store ∧ sampleOutcome w = (some "c", some "c") := by
  have hrun : ((mergeSessions.machine.runUnder (OneByOne 4) (Sessions.World.idle sampleContacts)
      (sampleProposals ++ callFor 2 (.applyRead "p" "fingerprint" sampleMergeEnv none) 23 ++
        callFor 3 (.applyRead "q" "fingerprint" sampleMergeEnv none) 23)).map sampleOutcome) =
      some (some "c", some "c") := by
    decide +kernel
  obtain ⟨w, hw, houtcome⟩ := Option.map_eq_some_iff.1 hrun
  have hreach : mergeSessions.machine.Reaches (· = Sessions.World.idle sampleContacts)
      (OneByOne 4) w := Machine.Reaches.runUnder (.start rfl) hw
  exact ⟨w, merges_strand_nothing sampleContacts_fresh (reaches_of_oneByOne hreach).1, houtcome⟩

/-- The merges, the second one between two statements of the first. -/
def overlappingMerges : List (Sessions.Move MergePoint) :=
  sampleProposals ++ callFor 2 (.applyRead "p" "fingerprint" sampleMergeEnv none) 19 ++
    callFor 3 (.applyRead "q" "fingerprint" sampleMergeEnv none) 23 ++ List.replicate 4 (.exec 2)

/-- **Merges that overlap may strand a row**: all calls have finished, and the activity belongs to
the first contact, which was merged away. -/
theorem overlapping_merges_strand : ¬ ∀ start : MergeDb, start.Fresh → ∀ w,
    mergeSessions.machine.Reachable (· = Sessions.World.idle start) w → (∀ t, w.live t = none) →
    StrandsNothing start w.store := by
  intro hclaim
  have hrun : ((mergeSessions.machine.run (Sessions.World.idle sampleContacts)
      overlappingMerges).map fun w => (sampleOutcome w, (List.range 4).all fun t =>
        (w.live t).isNone)) = some ((some "a", some "c"), true) := by
    decide +kernel
  obtain ⟨w, hw, hvalue⟩ := Option.map_eq_some_iff.1 hrun
  obtain ⟨houtcome, hidle⟩ := Prod.mk.inj hvalue
  have hlive : ∀ t, w.live t = none := by
    intro t
    rcases Nat.lt_or_ge t 4 with hlt | hge
    · exact Option.isNone_iff_eq_none.1 (List.all_eq_true.1 hidle t (List.mem_range.2 hlt))
    · refine mergeSessions.run_live_eq (fun m hm heq => ?_) hw
      have hsession : ∀ m ∈ overlappingMerges, m.session < 4 := by decide +kernel
      exact absurd (hsession m hm) (by omega)
  have hlaw := hclaim sampleContacts sampleContacts_fresh w
    (Machine.reachable_of_run rfl hw) hlive
  obtain ⟨hrow, hmerged⟩ := Prod.mk.inj houtcome
  obtain ⟨row, hrow, href⟩ := Option.bind_eq_some_iff.1 hrow
  obtain ⟨c, hc, hinto⟩ := Option.bind_eq_some_iff.1 hmerged
  have hcarried := hlaw.rows 0
  rw [hrow] at hcarried
  obtain ⟨hcarried⟩ := hcarried
  refine hcarried.unmerged .activity "a" href ⟨"c", 0, c, hc, ?_, hinto⟩
  have hid : ((mergeSessions.machine.run (Sessions.World.idle sampleContacts)
      overlappingMerges).bind fun w => (w.store.contacts.com 0).map (·.id)) = some "a" := by
    decide +kernel
  rw [hw, Option.bind_some, hc] at hid
  exact Option.some.inj hid

end Munin
