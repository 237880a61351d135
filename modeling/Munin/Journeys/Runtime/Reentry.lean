import Munin.Journeys.Runtime.Enroll

/-!
# Re-entry

* **`unique_step`** — the unique index: of each journey, subject and entry key no statement reads
  two open rows, whatever runs at the same time.
* **`OnceOk`** — what the policy `once` needs besides: the rows that a call did not find as it
  looked for earlier enrollments are open when it inserts, so that the index finds them.
* **`reentry_rules`** — the two in every state reached.
-/

namespace Munin

open Foundations

/-! ### The unique index -/

/-- The end of a row takes it out of the index. -/
theorem key_written {r : EntryRow} {finish : Option (String × Instant)}
    {k : String × String × String} (h : (r.written finish).key = some k) : r.key = some k := by
  cases finish with
  | none => exact h
  | some p =>
    have hclosed : (r.finish p.1 p.2).row.state.isOpen = false := isOpen_finish _ _ _
    have hnone : (r.finish p.1 p.2).key = none := by
      rw [EntryRow.key, hclosed]
      rfl
    exact absurd (hnone.symm.trans h) (by simp)

variable {s : EnrollState} {i : Nat} {specs : Specs} {journeyId : String}

/-- What a statement of a call does to the state. -/
theorem EnrollState.exec_cases {t : EnrollState} {c : EnrollCall} (h : s.exec i c = some t) :
    (∃ T done, c.stage = .insert ∧ s.table.insert EntryRow.key c.tx c.row = some (T, done) ∧
      t = ({ s with table := T } : EnrollState).setCall i none) ∨
    (∃ result, c.afterRead (s.table.view c.tx) = .inl result ∧ t = s.setCall i none) ∨
    ∃ stage, c.afterRead (s.table.view c.tx) = .inr stage ∧
      t = s.setCall i (some { c with stage }) := by
  unfold EnrollState.exec at h
  split at h
  · rename_i hstage
    obtain ⟨⟨T, done⟩, hT, rfl⟩ := Option.map_eq_some_iff.1 h
    exact .inl ⟨T, done, hstage, hT, rfl⟩
  · split at h
    · rename_i result hread
      exact .inr (.inl ⟨result, hread, (Option.some.inj h).symm⟩)
    · rename_i stage hread
      exact .inr (.inr ⟨stage, hread, (Option.some.inj h).symm⟩)

/-- **The index** holds at every step. -/
theorem unique_step {t : EnrollState} {a : EnrollStep}
    (hs : TxTable.Unique EntryRow.key s.table) (h : (enrollMachine specs).step s a = some t) :
    TxTable.Unique EntryRow.key t.table := by
  change EnrollState.step specs s a = some t at h
  cases a with
  | call i tx input reads id uuid =>
    simp only [EnrollState.step] at h
    split at h
    · cases h
    · split at h <;> cases h <;> exact hs
  | exec i =>
    obtain ⟨c, -, h⟩ := Option.bind_eq_some_iff.1 h
    rcases EnrollState.exec_cases h with ⟨T, done, -, hT, rfl⟩ | ⟨_, -, rfl⟩ | ⟨_, -, rfl⟩
    · exact hs.insert hT
    · exact hs
    · exact hs
  | write tx i finish =>
    obtain ⟨T, hT, rfl⟩ := Option.map_eq_some_iff.1 h
    exact hs.update (fun _ _ => key_written) hT
  | undo tx i =>
    obtain ⟨T, hT, rfl⟩ := Option.map_eq_some_iff.1 h
    exact hs.undo hT
  | commit tx =>
    cases h
    exact hs.commit tx
  | abort tx =>
    cases h
    exact hs.abort tx

/-! ### The policy `once` -/

/-- Some value of the row is of this journey and subject. -/
def RowOf (journeyId subjectKey : String) (r : VersionedRow EntryRow) : Prop :=
  ∃ v ∈ r.values, v.IsOf journeyId subjectKey

namespace EnrollState

/-- A call has looked for earlier enrollments of the subject, and not yet inserted. -/
def Checked (s : EnrollState) (journeyId subjectKey : String) (holdout : Bool) : Prop :=
  ∃ i c, s.calls i = some c ∧ c.stage ≠ .prior ∧ c.input.journeyId = journeyId ∧
    c.subjectKey = subjectKey ∧ c.holdout = holdout

/-- A transaction has inserted an enrollment of the subject, and not yet ended. -/
def Uncommitted (s : EnrollState) (journeyId subjectKey : String) (tx : Nat) (holdout : Bool) :
    Prop :=
  ∃ r ∈ s.table, ∃ v, r.committed = none ∧ r.pending = some (tx, v) ∧
    v.IsOf journeyId subjectKey ∧ v.row.holdout = holdout

end EnrollState

/-- What the steps must meet for one journey: as a call looks for earlier enrollments of its
subject, no other one is under way of which either is held out; and no enrollment ends while a call
for its subject is under way. -/
def NoOverlap (journeyId : String) (s : EnrollState) : EnrollStep → Prop
  | .exec i => ∀ c, s.calls i = some c → c.stage = .prior → c.input.journeyId = journeyId →
      ∀ holdout, (s.Checked journeyId c.subjectKey holdout ∨
        ∃ tx, tx ≠ c.tx ∧ s.Uncommitted journeyId c.subjectKey tx holdout) →
          c.holdout = false ∧ holdout = false
  | .write _ i (some _) => ∀ r subjectKey, s.table[i]? = some r → RowOf journeyId subjectKey r →
      ∀ holdout, ¬ s.Checked journeyId subjectKey holdout ∧
        ∀ tx, ¬ s.Uncommitted journeyId subjectKey tx holdout
  | .call .. | .write _ _ none | .undo .. | .commit _ | .abort _ => True

/-- What holds of the calls and the rows of a journey with the policy `once`. -/
structure OnceOk (specs : Specs) (journeyId : String) (s : EnrollState) : Prop where
  spec : ∀ i c, s.calls i = some c → c.input.journeyId = journeyId →
    specs journeyId c.version = some c.spec
  entryKey : ∀ r ∈ s.table, ∀ v ∈ r.values, v.row.journeyId = journeyId → v.entryKey = ""
  same : ∀ r ∈ s.table, ∀ v ∈ r.values, ∀ w ∈ r.values, v.row.journeyId = w.row.journeyId ∧
    v.row.subjectKey = w.row.subjectKey
  single : ∀ subjectKey,
    s.table.Pairwise fun r r' => ¬ (RowOf journeyId subjectKey r ∧ RowOf journeyId subjectKey r')
  fresh : ∀ r ∈ s.table, ∀ tx v, r.committed = none → r.pending = some (tx, v) →
    v.row.journeyId = journeyId → v.row.holdout = false → v.row.state.isOpen = true
  checked : ∀ i c, s.calls i = some c → c.stage ≠ .prior → c.input.journeyId = journeyId →
    ∀ r ∈ s.table, ∀ v ∈ r.values, v.IsOf journeyId c.subjectKey →
      c.holdout = false ∧ v.row.state.isOpen = true
  alone : ∀ i i' c c', i ≠ i' → s.calls i = some c → s.calls i' = some c' → c.stage ≠ .prior →
    c'.stage ≠ .prior → c.input.journeyId = journeyId → c'.input.journeyId = journeyId →
      c.subjectKey = c'.subjectKey → c.holdout = false

/-- What an end of a transaction, and a write that leaves a row's columns alone, make of a row: no
new values, and no row that is uncommitted anew. -/
structure Shrinks (r r' : VersionedRow EntryRow) : Prop where
  values : ∀ v ∈ r'.values, v ∈ r.values
  fresh : ∀ tx v, r'.committed = none → r'.pending = some (tx, v) →
    r.committed = none ∧ r.pending = some (tx, v)

theorem Shrinks.rowOf {r r' : VersionedRow EntryRow} (h : Shrinks r r')
    {subjectKey : String} (hr : RowOf journeyId subjectKey r') :
    RowOf journeyId subjectKey r := by
  obtain ⟨v, hv, hof⟩ := hr
  exact ⟨v, h.values v hv, hof⟩

theorem shrinks_of_ended {r r' : VersionedRow EntryRow} {tx : Nat}
    (h : VersionedRow.Ended tx r r') (hvalues : ∀ v ∈ r'.values, v ∈ r.values) : Shrinks r r' where
  values := hvalues
  fresh tx' v hnone hp := by
    obtain ⟨-, rfl⟩ := h.of_pending hp
    exact ⟨hnone, hp⟩

theorem shrinks_abort (r : VersionedRow EntryRow) (tx : Nat) : Shrinks r (r.abort tx) :=
  shrinks_of_ended (r.ended_abort tx) fun _ => r.values_abort tx

section OnceOk

variable {specs : Specs} {journeyId : String} {s t : EnrollState}

variable {T : TxTable EntryRow} {i tx : Nat} {c : EnrollCall}

section Keeps

variable (hs : OnceOk specs journeyId s)

include hs

/-- A table whose rows shrank. -/
theorem OnceOk.shrink (hmem : ∀ r' ∈ T, ∃ r ∈ s.table, Shrinks r r')
    (hsingle : ∀ subjectKey, T.Pairwise fun r r' =>
      ¬ (RowOf journeyId subjectKey r ∧ RowOf journeyId subjectKey r')) :
    OnceOk specs journeyId { s with table := T } where
  spec := hs.spec
  entryKey r' hr' v hv := by
    obtain ⟨r, hr, hshrinks⟩ := hmem r' hr'
    exact hs.entryKey r hr v (hshrinks.values v hv)
  same r' hr' v hv w hw := by
    obtain ⟨r, hr, hshrinks⟩ := hmem r' hr'
    exact hs.same r hr v (hshrinks.values v hv) w (hshrinks.values w hw)
  single := hsingle
  fresh r' hr' tx v hnone hp := by
    obtain ⟨r, hr, hshrinks⟩ := hmem r' hr'
    obtain ⟨hnone', hp'⟩ := hshrinks.fresh tx v hnone hp
    exact hs.fresh r hr tx v hnone' hp'
  checked i c hc hstage hj r' hr' v hv := by
    obtain ⟨r, hr, hshrinks⟩ := hmem r' hr'
    exact hs.checked i c hc hstage hj r hr v (hshrinks.values v hv)
  alone := hs.alone

theorem OnceOk.map {g : VersionedRow EntryRow → VersionedRow EntryRow}
    (hg : ∀ r, Shrinks r (g r)) : OnceOk specs journeyId { s with table := s.table.map g } := by
  refine hs.shrink (fun r' hr' => ?_) fun subjectKey => ?_
  · obtain ⟨r, hr, rfl⟩ := List.mem_map.1 hr'
    exact ⟨r, hr, hg r⟩
  · refine List.pairwise_map.2 ((hs.single subjectKey).imp fun hnot hboth => hnot ?_)
    exact ⟨(hg _).rowOf hboth.1, (hg _).rowOf hboth.2⟩

theorem OnceOk.set {r r' : VersionedRow EntryRow} (hr : s.table[i]? = some r) (h : Shrinks r r') :
    OnceOk specs journeyId { s with table := s.table.set i r' } := by
  refine hs.shrink (fun q hq => ?_) fun subjectKey => ?_
  · rcases List.mem_or_eq_of_mem_set hq with hq | rfl
    · exact ⟨q, hq, fun v hv => hv, fun _ _ hnone hp => ⟨hnone, hp⟩⟩
    · exact ⟨r, List.mem_of_getElem? hr, h⟩
  · refine TxTable.pairwise_set (fun _ _ hab => fun hba => hab ⟨hba.2, hba.1⟩) hr
      (hs.single subjectKey) fun q _ hnot hboth => hnot ?_
    exact ⟨h.rowOf hboth.1, hboth.2⟩

omit hs in
/-- A call that begins: what it takes over, and that it has read nothing yet. -/
theorem start_eq_ok {spec : Nat → Option JourneySpec} {input : EnrollInput}
    {reads : EnrollReads} {id uuid : String}
    (h : EnrollCall.start spec tx input reads id uuid = .ok (.inr c)) :
    c.input = input ∧ c.stage = .prior ∧ spec c.version = some c.spec := by
  unfold EnrollCall.start at h
  split at h
  · cases h
  · split at h
    · cases h
    · split at h
      · cases h
      · rename_i spec' hspec
        split at h
        · cases h
        · obtain ⟨_, -, h⟩ := bind_eq_ok.1 h
          obtain ⟨subject, -, h⟩ := bind_eq_ok.1 h
          have h := Except.ok.inj h
          split at h
          · cases h
          · split at h
            · cases h
            · split at h
              · cases h
                exact ⟨rfl, rfl, hspec⟩
              · cases h
  · cases h

omit hs in
/-- The calls after one is replaced. -/
theorem calls_setCall {k : Nat} {c : Option EnrollCall} {d : EnrollCall}
    (h : (s.setCall i c).calls k = some d) :
    (k = i ∧ c = some d) ∨ (k ≠ i ∧ s.calls k = some d) := by
  by_cases hk : k = i
  · subst hk
    have hself : (s.setCall k c).calls k = c := Function.update_self ..
    exact .inl ⟨rfl, hself.symm.trans h⟩
  · have hother : (s.setCall i c).calls k = s.calls k := Function.update_of_ne hk ..
    exact .inr ⟨hk, hother.symm.trans h⟩

/-- One call replaced by one of which the same can be said. -/
theorem OnceOk.setCall (i : Nat) {c : Option EnrollCall}
    (hspec : ∀ d, c = some d → d.input.journeyId = journeyId →
      specs journeyId d.version = some d.spec)
    (hchecked : ∀ d, c = some d → d.stage ≠ .prior → d.input.journeyId = journeyId →
      ∀ r ∈ s.table, ∀ v ∈ r.values, v.IsOf journeyId d.subjectKey →
        d.holdout = false ∧ v.row.state.isOpen = true)
    (halone : ∀ d, c = some d → d.stage ≠ .prior → d.input.journeyId = journeyId →
      ∀ k c', k ≠ i → s.calls k = some c' → c'.stage ≠ .prior → c'.input.journeyId = journeyId →
        d.subjectKey = c'.subjectKey → d.holdout = false ∧ c'.holdout = false) :
    OnceOk specs journeyId (s.setCall i c) where
  spec k d hd := by
    rcases calls_setCall hd with ⟨rfl, hc⟩ | ⟨-, hold⟩
    · exact hspec d hc
    · exact hs.spec k d hold
  entryKey := hs.entryKey
  same := hs.same
  single := hs.single
  fresh := hs.fresh
  checked k d hd := by
    rcases calls_setCall hd with ⟨rfl, hc⟩ | ⟨-, hold⟩
    · exact hchecked d hc
    · exact hs.checked k d hold
  alone k k' d d' hne hd hd' hstage hstage' hj hj' hsame := by
    rcases calls_setCall hd with ⟨rfl, hc⟩ | ⟨hk, hold⟩ <;>
      rcases calls_setCall hd' with ⟨rfl, hc'⟩ | ⟨hk', hold'⟩
    · exact absurd rfl hne
    · exact (halone d hc hstage hj k' d' hk' hold' hstage' hj' hsame).1
    · exact (halone d' hc' hstage' hj' k d hk hold hstage hj hsame.symm).2
    · exact hs.alone k k' d d' hne hold hold' hstage hstage' hj hj' hsame

theorem OnceOk.drop (i : Nat) :
    OnceOk specs journeyId (s.setCall i none) :=
  hs.setCall i (fun _ h => by cases h) (fun _ h => by cases h) fun _ h => by cases h

/-- A call that goes on to a later statement. -/
theorem OnceOk.advance (hc : s.calls i = some c) (hstage : c.stage ≠ .prior) (stage : EnrollStage) :
    OnceOk specs journeyId (s.setCall i (some { c with stage })) := by
  refine hs.setCall i (fun d hd hj => ?_) (fun d hd _ hj => ?_)
    fun d hd _ hj k c' hk hc' hs' hj' => ?_
  · cases hd
    exact hs.spec i c hc hj
  · cases hd
    exact hs.checked i c hc hstage hj
  · cases hd
    intro hsame
    exact ⟨hs.alone i k c c' hk.symm hc hc' hstage hs' hj hj' hsame,
      hs.alone k i c' c hk hc' hc hs' hstage hj' hj hsame.symm⟩

omit hs in
/-- With the policy `once` the entry key is empty. -/
theorem entryKey_of_once (h : c.spec.entry.reentry = .once) : c.entryKey = "" := by
  simp [EnrollCall.entryKey, EnrollCall.concurrent, h]

/-- **A look for earlier enrollments** that finds none: a row that it does not see is uncommitted,
and so open. -/
theorem OnceOk.check
    (hpolicy : ∀ version spec, specs journeyId version = some spec → spec.entry.reentry = .once)
    (hc : s.calls i = some c) (hstage : c.stage = .prior)
    (hguard : NoOverlap journeyId s (.exec i)) {stage : EnrollStage}
    (h : c.afterRead (s.table.view c.tx) = .inr stage) :
    OnceOk specs journeyId (s.setCall i (some { c with stage })) := by
  have hfree : c.input.journeyId = journeyId → ∀ r ∈ s.table, ∀ v ∈ r.values,
      v.IsOf journeyId c.subjectKey → ∃ tx, tx ≠ c.tx ∧ r.committed = none ∧
        r.pending = some (tx, v) := by
    intro hj r hr v hv hof
    have honce : c.spec.entry.reentry = .once := hpolicy _ _ (hs.spec i c hc hj)
    have hempty : c.mine (s.table.view c.tx) = [] := by
      rw [EnrollCall.afterRead, hstage] at h
      simp only [honce, decide_true, Bool.true_and] at h
      split at h
      · cases h
      · rename_i hmine
        simpa using hmine
    have hunseen : r.seenBy c.tx = none := by
      cases hseen : r.seenBy c.tx with
      | none => rfl
      | some w =>
        have hw : w.IsOf c.input.journeyId c.subjectKey := by
          obtain ⟨hj', hsub⟩ := hs.same r hr v hv w (VersionedRow.mem_values_of_seenBy hseen)
          exact ⟨by rw [← hj', hof.1, hj], by rw [← hsub, hof.2]⟩
        have hmem : w ∈ c.mine (s.table.view c.tx) :=
          List.mem_filter.2 ⟨List.mem_filterMap.2 ⟨r, hr, hseen⟩, decide_eq_true hw⟩
        simp [hempty] at hmem
    rcases r.writes_or_not c.tx with ⟨w, hw⟩ | hnot
    · rw [VersionedRow.seenBy_of_pending hw] at hunseen
      cases hunseen
    · rw [VersionedRow.seenBy_of_not hnot] at hunseen
      rcases VersionedRow.mem_values.1 hv with hcommitted | ⟨tx, hp⟩
      · rw [hunseen] at hcommitted
        cases hcommitted
      · exact ⟨tx, fun htx => hnot v (htx ▸ hp), hunseen, hp⟩
  refine hs.setCall i (fun d hd hj => ?_) (fun d hd _ hj r hr v hv hof => ?_)
    fun d hd _ hj k c' hk hc' hs' hj' hsame => ?_
  · cases hd
    exact hs.spec i c hc hj
  · cases hd
    obtain ⟨tx, htx, hnone, hp⟩ := hfree hj r hr v hv hof
    obtain ⟨hheld, hheld'⟩ := hguard c hc hstage hj v.row.holdout
      (.inr ⟨tx, htx, r, hr, v, hnone, hp, hof, rfl⟩)
    exact ⟨hheld, hs.fresh r hr tx v hnone hp hof.1 hheld'⟩
  · cases hd
    exact hguard c hc hstage hj c'.holdout (.inl ⟨k, c', hc', hs', hj', hsame.symm, rfl⟩)

omit hs in
/-- The row that a call inserts. -/
theorem row_state (c : EnrollCall) :
    c.row.row.holdout = c.holdout ∧ (c.holdout = false → c.row.row.state.isOpen = true) := by
  have hbucket : c.holdout =
      decide (stableBucket [c.subjectKey, c.input.journeyId] < c.spec.settings.holdoutPct) := rfl
  refine ⟨hbucket.symm, fun hnot => ?_⟩
  rw [hbucket, decide_eq_false_iff_not] at hnot
  have hstate : c.row.row.state = .active := if_neg hnot
  rw [hstate]
  rfl

/-- **An insertion**: the index refuses it if there is a row of the subject, which is open. -/
theorem OnceOk.insert
    (hpolicy : ∀ version spec, specs journeyId version = some spec → spec.entry.reentry = .once)
    (hc : s.calls i = some c) (hstage : c.stage = .insert) {done : Bool}
    (h : s.table.insert EntryRow.key c.tx c.row = some (T, done)) :
    OnceOk specs journeyId (({ s with table := T } : EnrollState).setCall i none) := by
  rcases TxTable.insert_eq_some h with ⟨-, rfl, -⟩ | ⟨-, rfl, hfree⟩
  · exact hs.drop i
  have hprior : c.stage ≠ .prior := by
    rw [hstage]
    decide
  have hkey : c.input.journeyId = journeyId → c.row.entryKey = "" := fun hj =>
    entryKey_of_once (hpolicy _ _ (hs.spec i c hc hj))
  obtain ⟨hheld, hopen⟩ := row_state c
  -- No row of the subject is there.
  have hno : ∀ r ∈ s.table, c.input.journeyId = journeyId →
      ¬ RowOf journeyId c.subjectKey r := by
    rintro r hr hj ⟨v, hv, hof⟩
    obtain ⟨hnot, -⟩ := hs.checked i c hc hprior hj r hr v hv hof
    have hkeyOf : ∀ w ∈ r.values, w.key = some (journeyId, c.subjectKey, "") := by
      intro w hw
      obtain ⟨hj', hsub⟩ := hs.same r hr v hv w hw
      have hofw : w.IsOf journeyId c.subjectKey := ⟨by rw [← hj', hof.1], by rw [← hsub, hof.2]⟩
      obtain ⟨-, hopenw⟩ := hs.checked i c hc hprior hj r hr w hw hofw
      rw [EntryRow.key, if_pos hopenw, hofw.1, hofw.2, hs.entryKey r hr w hw hofw.1]
    have hkeyc : c.row.key = some (journeyId, c.subjectKey, "") := by
      rw [EntryRow.key, if_pos (hopen hnot), hkey hj]
      exact congrArg (fun j => some (j, c.subjectKey, "")) hj
    obtain ⟨hwait, hseen⟩ := hfree _ hkeyc r hr
    rcases r.writes_or_not c.tx with ⟨w, hw⟩ | hnone
    · have hwmem : w ∈ r.values := VersionedRow.mem_values.2 (.inr ⟨_, hw⟩)
      rw [VersionedRow.seenBy_of_pending hw] at hseen
      exact hseen (hkeyOf w hwmem)
    · rcases VersionedRow.mem_values.1 hv with hcommitted | ⟨o, hp⟩
      · rw [VersionedRow.seenBy_of_not hnone, hcommitted] at hseen
        exact hseen (hkeyOf v hv)
      · have ho : o ≠ c.tx := fun heq => hnone v (heq ▸ hp)
        rw [TxTable.waitsFor_of_other hp ho (.inr (hkeyOf v hv))] at hwait
        cases hwait
  have hvalues : ∀ v ∈ (⟨none, some (c.tx, c.row)⟩ : VersionedRow EntryRow).values, v = c.row := by
    intro v hv
    rcases VersionedRow.mem_values.1 hv with hnone | ⟨o, hp⟩
    · cases hnone
    · exact ((Prod.mk.inj (Option.some.inj hp)).2).symm
  have hrow : ∀ subjectKey,
      RowOf journeyId subjectKey (⟨none, some (c.tx, c.row)⟩ : VersionedRow EntryRow) →
        c.input.journeyId = journeyId ∧ c.subjectKey = subjectKey := by
    rintro subjectKey ⟨v, hv, hof⟩
    rw [hvalues v hv] at hof
    exact hof
  have hmem : ∀ r ∈ s.table ++ [⟨none, some (c.tx, c.row)⟩],
      r ∈ s.table ∨ r = ⟨none, some (c.tx, c.row)⟩ := by
    intro r hr
    rw [List.mem_append, List.mem_singleton] at hr
    exact hr
  have hcalls : ∀ k d, ((({ s with table := s.table ++ [⟨none, some (c.tx, c.row)⟩] } :
      EnrollState).setCall i none).calls k = some d) → k ≠ i ∧ s.calls k = some d := by
    intro k d hd
    rcases calls_setCall hd with ⟨-, hnone⟩ | hold
    · cases hnone
    · exact hold
  refine ⟨fun k d hd => hs.spec k d (hcalls k d hd).2, fun r hr v hv hj => ?_,
    fun r hr v hv w hw => ?_, fun subjectKey => ?_, fun r hr tx v hnone hp hj hheldv => ?_,
    fun k d hd hsd hjd r hr v hv hof => ?_, fun k k' d d' hne hd hd' =>
      hs.alone k k' d d' hne (hcalls k d hd).2 (hcalls k' d' hd').2⟩
  · rcases hmem r hr with hold | rfl
    · exact hs.entryKey r hold v hv hj
    · rw [hvalues v hv] at hj ⊢
      exact hkey hj
  · rcases hmem r hr with hold | rfl
    · exact hs.same r hold v hv w hw
    · rw [hvalues v hv, hvalues w hw]
      exact ⟨rfl, rfl⟩
  · refine List.pairwise_append.2 ⟨hs.single subjectKey, List.pairwise_singleton _ _, ?_⟩
    rintro r hr q hq ⟨hold, hnew⟩
    obtain rfl := List.mem_singleton.1 hq
    obtain ⟨hj, rfl⟩ := hrow subjectKey hnew
    exact hno r hr hj hold
  · rcases hmem r hr with hold | rfl
    · exact hs.fresh r hold tx v hnone hp hj hheldv
    · rw [hvalues v (VersionedRow.mem_values.2 (.inr ⟨tx, hp⟩))] at hheldv ⊢
      exact hopen (hheld.symm.trans hheldv)
  · obtain ⟨hk, hold⟩ := hcalls k d hd
    rcases hmem r hr with hr | rfl
    · exact hs.checked k d hold hsd hjd r hr v hv hof
    · rw [hvalues v hv] at hof ⊢
      -- Another call for the subject is not held out, and neither is this one.
      have hj : c.input.journeyId = journeyId := hof.1
      have hsub : c.subjectKey = d.subjectKey := hof.2
      refine ⟨hs.alone k i d c hk hold hc hsd hprior hjd hj hsub.symm, hopen ?_⟩
      exact hs.alone i k c d hk.symm hc hold hprior hsd hj hjd hsub

omit hs in
/-- The end of a row leaves its journey, its subject and its entry key. -/
theorem finish_of (r : EntryRow) (reason : String) (clock : Instant) :
    (r.finish reason clock).row.journeyId = r.row.journeyId ∧
      (r.finish reason clock).row.subjectKey = r.row.subjectKey ∧
      (r.finish reason clock).entryKey = r.entryKey := by
  unfold EntryRow.finish EnrollmentFile.finish
  split
  · exact ⟨rfl, rfl, rfl⟩
  · exact ⟨rfl, rfl, rfl⟩

/-- **The end of an enrollment**: no call for its subject is under way. -/
theorem OnceOk.finish {reason : String}
    {clock : Instant} (hguard : NoOverlap journeyId s (.write tx i (some (reason, clock))))
    (h : s.table.update tx i (·.written (some (reason, clock))) = some T) :
    OnceOk specs journeyId { s with table := T } := by
  obtain ⟨r, v, hr, hv, hown, rfl⟩ := TxTable.update_eq_some h
  have hrmem : r ∈ s.table := List.mem_of_getElem? hr
  have hvmem : v ∈ r.values := VersionedRow.mem_values_of_seenBy hv
  obtain ⟨hj, hsub, hkey⟩ := finish_of v reason clock
  let r' : VersionedRow EntryRow := ⟨r.committed, some (tx, v.finish reason clock)⟩
  have hvalues : ∀ w ∈ r'.values, w ∈ r.values ∨ w = v.finish reason clock := by
    intro w hw
    rcases VersionedRow.mem_values.1 hw with hc | ⟨o, hp⟩
    · exact .inl (VersionedRow.mem_values.2 (.inl hc))
    · exact .inr ((Prod.mk.inj (Option.some.inj hp)).2).symm
  -- Each value of the new row has the journey and the subject of one that the row had.
  have hold : ∀ w ∈ r'.values, ∃ u ∈ r.values, w.row.journeyId = u.row.journeyId ∧
      w.row.subjectKey = u.row.subjectKey ∧ w.entryKey = u.entryKey := by
    intro w hw
    rcases hvalues w hw with hin | rfl
    · exact ⟨w, hin, rfl, rfl, rfl⟩
    · exact ⟨v, hvmem, hj, hsub, hkey⟩
  have hrowOf : ∀ subjectKey, RowOf journeyId subjectKey r' → RowOf journeyId subjectKey r := by
    rintro subjectKey ⟨w, hw, hof⟩
    obtain ⟨u, hu, huj, hus, -⟩ := hold w hw
    exact ⟨u, hu, huj ▸ hof.1, hus ▸ hof.2⟩
  have hmem : ∀ q ∈ s.table.set i r', q ∈ s.table ∨ q = r' := fun q hq =>
    List.mem_or_eq_of_mem_set hq
  refine ⟨hs.spec, fun q hq w hw hwj => ?_, fun q hq w hw w' hw' => ?_, fun subjectKey => ?_,
    fun q hq tx' w hnone hp hwj hheld => ?_, fun k c hc hstage hcj q hq w hw hof => ?_, hs.alone⟩
  · rcases hmem q hq with hin | rfl
    · exact hs.entryKey q hin w hw hwj
    · obtain ⟨u, hu, huj, -, huk⟩ := hold w hw
      rw [huk]
      exact hs.entryKey r hrmem u hu (huj ▸ hwj)
  · rcases hmem q hq with hin | rfl
    · exact hs.same q hin w hw w' hw'
    · obtain ⟨u, hu, huj, hus, -⟩ := hold w hw
      obtain ⟨u', hu', huj', hus', -⟩ := hold w' hw'
      obtain ⟨hjj, hss⟩ := hs.same r hrmem u hu u' hu'
      exact ⟨by rw [huj, huj', hjj], by rw [hus, hus', hss]⟩
  · refine TxTable.pairwise_set (fun _ _ hab => fun hba => hab ⟨hba.2, hba.1⟩) hr
      (hs.single subjectKey) fun q _ hnot hboth => hnot ?_
    exact ⟨hrowOf subjectKey hboth.1, hboth.2⟩
  · rcases hmem q hq with hin | rfl
    · exact hs.fresh q hin tx' w hnone hp hwj hheld
    · -- The row would be uncommitted, by the transaction that ends it.
      obtain ⟨u, hu, huj, -, -⟩ := hold w (VersionedRow.mem_values.2 (.inr ⟨tx', hp⟩))
      have hvj : v.row.journeyId = journeyId := by
        rw [(hs.same r hrmem v hvmem u hu).1, ← huj, hwj]
      have hpending : r.pending = some (tx, v) := by
        rcases r.writes_or_not tx with ⟨x, hx⟩ | hnot
        · rw [VersionedRow.seenBy_of_pending hx] at hv
          rw [hx, Option.some.inj hv]
        · rw [VersionedRow.seenBy_of_not hnot, hnone] at hv
          cases hv
      exact absurd ⟨r, hrmem, v, hnone, hpending, ⟨hvj, rfl⟩, rfl⟩
        ((hguard r v.row.subjectKey hr ⟨v, hvmem, hvj, rfl⟩ v.row.holdout).2 tx)
  · rcases hmem q hq with hin | rfl
    · exact hs.checked k c hc hstage hcj q hin w hw hof
    · exact absurd ⟨k, c, hc, hstage, hcj, rfl, rfl⟩
        (hguard r c.subjectKey hr (hrowOf _ ⟨w, hw, hof⟩) c.holdout).1

/-- A write that leaves a row's columns alone. -/
theorem OnceOk.touch (h : s.table.update tx i (·.written none) = some T) :
    OnceOk specs journeyId { s with table := T } := by
  obtain ⟨r, v, hr, hv, hown, rfl⟩ := TxTable.update_eq_some h
  have hvmem : v ∈ r.values := VersionedRow.mem_values_of_seenBy hv
  refine hs.set hr ⟨fun w hw => ?_, fun tx' w hnone hp => ⟨hnone, ?_⟩⟩
  · rcases VersionedRow.mem_values.1 hw with hc | ⟨o, hp⟩
    · exact VersionedRow.mem_values.2 (.inl hc)
    · obtain ⟨-, rfl⟩ := Prod.mk.inj (Option.some.inj hp)
      exact hvmem
  · cases hp
    rcases r.writes_or_not tx with ⟨x, hx⟩ | hnot
    · rw [VersionedRow.seenBy_of_pending hx] at hv
      exact hx.trans (congrArg (fun y => some (tx, y)) (Option.some.inj hv))
    · have hcommitted : r.committed = none := hnone
      rw [VersionedRow.seenBy_of_not hnot, hcommitted] at hv
      cases hv

/-- **One step** that meets the condition. -/
theorem OnceOk.step
    (hpolicy : ∀ version spec, specs journeyId version = some spec → spec.entry.reentry = .once)
    {a : EnrollStep} (hguard : NoOverlap journeyId s a)
    (h : (enrollMachine specs).step s a = some t) : OnceOk specs journeyId t := by
  change EnrollState.step specs s a = some t at h
  cases a with
  | call i tx input reads id uuid =>
    simp only [EnrollState.step] at h
    split at h
    · cases h
    · split at h
      · rename_i c hstart
        obtain rfl := Option.some.inj h
        obtain ⟨hinput, hstage, hspec⟩ := start_eq_ok hstart
        refine hs.setCall i (fun d hd hj => ?_) (fun d hd hne => ?_) fun d hd hne => ?_
        · obtain rfl := Option.some.inj hd
          rw [← hspec, ← hinput, hj]
        · obtain rfl := Option.some.inj hd
          exact absurd hstage hne
        · obtain rfl := Option.some.inj hd
          exact absurd hstage hne
      · exact Option.some.inj h ▸ hs
      · exact Option.some.inj h ▸ hs
  | exec i =>
    obtain ⟨c, hc, h⟩ := Option.bind_eq_some_iff.1 h
    rcases EnrollState.exec_cases h with
      ⟨T, done, hstage, hT, rfl⟩ | ⟨_, -, rfl⟩ | ⟨stage, hread, rfl⟩
    · exact hs.insert hpolicy hc hstage hT
    · exact hs.drop i
    · by_cases hstage : c.stage = .prior
      · exact hs.check hpolicy hc hstage hguard hread
      · exact hs.advance hc hstage stage
  | write tx i finish =>
    obtain ⟨T, hT, rfl⟩ := Option.map_eq_some_iff.1 h
    cases finish with
    | none => exact hs.touch hT
    | some p => exact hs.finish hguard hT
  | undo tx i =>
    obtain ⟨T, hT, rfl⟩ := Option.map_eq_some_iff.1 h
    obtain ⟨r, hr, rfl, -⟩ := TxTable.undo_eq_some hT
    exact hs.set hr (shrinks_abort r tx)
  | commit tx =>
    obtain rfl := Option.some.inj h
    exact hs.map fun r => shrinks_of_ended (r.ended_commit tx) fun _ => r.values_commit tx
  | abort tx =>
    obtain rfl := Option.some.inj h
    exact hs.map fun r => shrinks_abort r tx

omit hs in
theorem onceOk_start : OnceOk specs journeyId {} where
  spec _ _ h := by cases h
  entryKey _ h := by cases h
  same _ h := by cases h
  single _ := List.Pairwise.nil
  fresh _ h := by cases h
  checked _ _ h := by cases h
  alone _ _ _ _ _ h := by cases h

/-- What a statement reads of a subject's rows, of which the table has one. -/
theorem OnceOk.length_view (tx : Nat) (subjectKey : String) :
    ((s.table.view tx).filter (·.IsOf journeyId subjectKey)).length ≤ 1 := by
  have hpairs : ((s.table.view tx).filter (·.IsOf journeyId subjectKey)).Pairwise
      fun _ _ => False := by
    rw [List.pairwise_filter, TxTable.view, List.pairwise_filterMap]
    refine (hs.single subjectKey).imp fun hnot v hv w hw hofv hofw => hnot ?_
    exact ⟨⟨v, VersionedRow.mem_values_of_seenBy hv, of_decide_eq_true hofv⟩,
      ⟨w, VersionedRow.mem_values_of_seenBy hw, of_decide_eq_true hofw⟩⟩
  cases hrows : (s.table.view tx).filter (·.IsOf journeyId subjectKey) with
  | nil => exact Nat.zero_le 1
  | cons v rest =>
    rw [hrows, List.pairwise_cons] at hpairs
    have hrest : rest = [] := List.eq_nil_iff_forall_not_mem.2 hpairs.1
    rw [hrest]
    exact Nat.le_refl 1

end Keeps

end OnceOk

/-! ### The rules -/

/-- The index in every state reached. -/
theorem unique_of_reachable
    (h : (enrollMachine specs).Reachable (· = {}) s) : TxTable.Unique EntryRow.key s.table := by
  refine h.invariant (I := fun s => TxTable.Unique EntryRow.key s.table) (fun s hs => ?_)
    fun s t a _ hs _ hstep => unique_step hs hstep
  rw [hs]
  exact List.Pairwise.nil

/-- The policy `once` in every state reached under its condition. -/
theorem onceOk_of_reaches
    (hpolicy : ∀ version spec, specs journeyId version = some spec → spec.entry.reentry = .once)
    (h : (enrollMachine specs).Reaches (· = {}) (NoOverlap journeyId) s) :
    OnceOk specs journeyId s := by
  refine h.invariant (I := OnceOk specs journeyId) (fun s hs => ?_)
    fun s t a _ hs hguard hstep => hs.step hpolicy hguard hstep
  rw [hs]
  exact onceOk_start

/-- **The re-entry rules.** However the statements of calls and of other transactions alternate, no
statement reads two open enrollments of one journey, subject and entry key. And of a journey whose
policy is `once` none reads two enrollments of one subject, as long as no call overlaps with a
held out one or with the end of an enrollment. -/
theorem reentry_rules (specs : Specs) :
    (∀ s, (enrollMachine specs).Reachable (· = {}) s →
      ∀ tx, ((s.table.view tx).filterMap EntryRow.key).Nodup) ∧
    ∀ journeyId, (∀ version spec, specs journeyId version = some spec →
        spec.entry.reentry = .once) →
      ∀ s, (enrollMachine specs).Reaches (· = {}) (NoOverlap journeyId) s →
        ∀ tx subjectKey, ((s.table.view tx).filter (·.IsOf journeyId subjectKey)).length ≤ 1 :=
  ⟨fun _ hs tx => TxTable.keys_nodup (unique_of_reachable hs) tx,
    fun _ hpolicy _ hs tx subjectKey => (onceOk_of_reaches hpolicy hs).length_view tx subjectKey⟩

/-- A journey that takes each subject once, with some of its subjects held out. -/
def onceSpec (holdoutPct : Nat) : JourneySpec where
  entry := { trigger := .manual, reentry := .once }
  settings := { holdoutPct }
  start := "end"
  nodes := [.exit { id := "end" }]

/-- The journey. -/
def onceSpecs (holdoutPct : Nat) : Specs := fun _ _ => some (onceSpec holdoutPct)

/-- A call for a contact, the same in each of two transactions. -/
def triggered (tx : Nat) : EnrollStep :=
  .call tx tx { journeyId := "j2", subject := { contactId := some "2" } }
    { journey := some (.live, some 1), now := 0 } (toString tx) ""

/-- Two calls for the contact, each of whose reads comes before the other one's insertion. -/
def twoTriggers : List EnrollStep :=
  [triggered 0, triggered 1, .exec 0, .exec 1, .exec 0, .exec 1]

/-- What becomes of the two. -/
def triggeredState (holdoutPct : Nat) (more : List EnrollStep) : EnrollState :=
  ((enrollMachine (onceSpecs holdoutPct)).run {} (twoTriggers ++ more)).getD {}

/-- No call holds its subject out. -/
def NoneHeldOut (s : EnrollState) : Prop :=
  ∀ i c, s.calls i = some c → c.spec.settings.holdoutPct = 0

theorem NoneHeldOut.setCall (hs : NoneHeldOut s) (i : Nat)
    {c : Option EnrollCall} (hc : ∀ d, c = some d → d.spec.settings.holdoutPct = 0) :
    NoneHeldOut (s.setCall i c) := by
  intro k d hd
  rcases calls_setCall hd with ⟨-, hnew⟩ | ⟨-, hold⟩
  · exact hc d hnew
  · exact hs k d hold

/-- A first read while no row is there and no call holds its subject out. -/
theorem noOverlap_of_triggered
    (hs : NoneHeldOut s) (htable : s.table = []) : NoOverlap journeyId s (.exec i) := by
  have hheld : ∀ k c, s.calls k = some c → c.holdout = false := by
    intro k c hc
    rw [EnrollCall.holdout, hs k c hc]
    exact decide_eq_false (Nat.not_lt_zero _)
  intro c hc _ _ holdout hother
  rcases hother with ⟨k, c', hc', -, -, -, rfl⟩ | ⟨tx, -, r, hr, -⟩
  · exact ⟨hheld i c hc, hheld k c' hc'⟩
  · rw [htable] at hr
    cases hr

/-- A later statement has nothing to meet. -/
theorem noOverlap_of_later {c : EnrollCall}
    (hc : s.calls i = some c) (hstage : c.stage ≠ .prior) : NoOverlap journeyId s (.exec i) := by
  intro d hd hprior
  obtain rfl : c = d := Option.some.inj (hc.symm.trans hd)
  exact absurd hprior hstage

theorem reentry_rules_sample :
    ((((triggeredState 0 [.exec 0, .commit 0, .exec 1]).table.view 2).filterMap
      EntryRow.key).Nodup ∧
    (((triggeredState 0 [.exec 0, .commit 0, .exec 1]).table.view 2).filter
      (·.IsOf "j2" "c:2")).length ≤ 1) ∧
    (triggeredState 0 [.exec 0, .commit 0, .exec 1]).table.length = 1 := by
  have hpolicy : ∀ version spec, onceSpecs 0 "j2" version = some spec →
      spec.entry.reentry = .once := by
    intro version spec hspec
    cases hspec
    rfl
  have hrun : (enrollMachine (onceSpecs 0)).run {}
      (twoTriggers ++ [.exec 0, .commit 0, .exec 1]) =
        some (triggeredState 0 [.exec 0, .commit 0, .exec 1]) := rfl
  -- Of the steps only the two first reads have something to meet.
  have hreaches : (enrollMachine (onceSpecs 0)).Reaches (· = {}) (NoOverlap "j2")
      (triggeredState 0 [.exec 0, .commit 0, .exec 1]) := by
    have h0 : (enrollMachine (onceSpecs 0)).Reaches (· = {}) (NoOverlap "j2") {} := .start rfl
    have hnone : NoneHeldOut {} := fun _ _ h => by cases h
    have h1 := h0.step (a := triggered 0) trivial rfl
    have h2 := h1.step (a := triggered 1) trivial rfl
    have h3 := h2.step (a := .exec 0) (noOverlap_of_triggered
      ((hnone.setCall 0 fun _ h => by cases h; rfl).setCall 1 fun _ h => by cases h; rfl) rfl) rfl
    have h4 := h3.step (a := .exec 1) (noOverlap_of_triggered
      (((hnone.setCall 0 fun _ h => by cases h; rfl).setCall 1 fun _ h => by cases h; rfl).setCall 0
        fun _ h => by cases h; rfl) rfl) rfl
    have h5 := h4.step (a := .exec 0) (noOverlap_of_later rfl (fun h => by cases h)) rfl
    have h6 := h5.step (a := .exec 1) (noOverlap_of_later rfl (fun h => by cases h)) rfl
    have h7 := h6.step (a := .exec 0) (noOverlap_of_later rfl (fun h => by cases h)) rfl
    have hcommit : ∀ s, NoOverlap "j2" s (.commit 0) := fun _ => trivial
    have h8 := h7.step (a := .commit 0) (hcommit _) rfl
    exact h8.step (a := .exec 1) (noOverlap_of_later rfl (fun h => by cases h)) rfl
  exact ⟨⟨(reentry_rules (onceSpecs 0)).1 _ (Machine.reachable_of_run rfl hrun) 2,
    (reentry_rules (onceSpecs 0)).2 "j2" hpolicy _ hreaches 2 "c:2"⟩, rfl⟩

/-- **Two held-out enrollments of one subject.** Neither call finds the other one's row, and the
index does not cover rows that are done. -/
theorem held_out_twice :
    ¬ ∀ (specs : Specs) journeyId, (∀ version spec, specs journeyId version = some spec →
        spec.entry.reentry = .once) →
      ∀ s, (enrollMachine specs).Reachable (· = {}) s →
        ∀ tx subjectKey, ((s.table.view tx).filter (·.IsOf journeyId subjectKey)).length ≤ 1 := by
  intro h
  have hrun : (enrollMachine (onceSpecs 50)).run {}
      (twoTriggers ++ [.exec 0, .exec 1, .commit 0, .commit 1]) =
        some (triggeredState 50 [.exec 0, .exec 1, .commit 0, .commit 1]) := rfl
  have htwo : (((triggeredState 50 [.exec 0, .exec 1, .commit 0, .commit 1]).table.view 2).filter
      (·.IsOf "j2" "c:2")).length = 2 := rfl
  have hone := h (onceSpecs 50) "j2" (fun _ _ hspec => by cases hspec; rfl) _
    (Machine.reachable_of_run rfl hrun) 2 "c:2"
  rw [htwo] at hone
  omega

end Munin
