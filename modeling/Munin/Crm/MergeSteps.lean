import Munin.Crm.MergeSafety

/-!
# What each statement of a merge does

* **`Applying.find`, `Applying.next`, …** — how far a merge has come, statement by statement.
* **`QuietFor`** — a step that is not a commit: the others see nothing of it.
* **`exec_cases`** — each statement is quiet, and leads to a point at which the call knows what it
  needs; or it takes everything back; or it commits, with nothing left to do.
* **`merges_strand_nothing`** — so nothing is stranded in any run without overlaps.
-/

namespace Munin

open Foundations

/-! ### How far a merge has come -/

section Applying

variable {call : ApplyCall} {s : MergeSight} {cur : ApplyStmt} {found : Option (List ℕ)}
  {i : ℕ} {is : List ℕ} {db db' : MergeDb} {t : ℕ} {fp : Option Footprint}

/-- At its first statement a merge has everything still to do. -/
theorem Applying.first (hpatch : NamesNoLink call.proposal.recommendedPatch)
    (found : Option (List ℕ)) : Applying call s .keeper found where
  patch := hpatch
  rows i row ref _ _ := .inl (by cases ref <;> decide)
  duplicate i c _ _ := .inr (.inl (by decide))
  proposals i p _ _ _ := .inl (.inl (by decide))

theorem ApplyCall.stmt_ref (call : ApplyCall) (ref : ContactRef) :
    call.stmt ref.stmt = some (call.redirect ref) := by
  cases ref <;> rfl

/-- The rows that a statement finds are those for which it was left. -/
theorem Applying.find (h : Applying call (db.sight t) cur none) (hw : WritesFor fp (db.sight t))
    {stmt : MergeUpdate} (hstmt : call.stmt cur = some stmt) :
    Applying call (db.sight t) cur (some (db.found t stmt)) where
  patch := h.patch
  rows i row ref hrow href := by
    refine (h.rows i row ref hrow href).find fun hcur => ?_
    rw [hcur, ApplyCall.stmt_ref, Option.some.injEq] at hstmt
    subst hstmt
    exact TxTable.mem_found.2 ⟨row, hrow, decide_eq_true href⟩
  duplicate i c hc hid := by
    refine (h.duplicate i c hc hid).imp id fun hleft => hleft.find fun hcur => ?_
    rw [hcur, ApplyCall.stmt, Option.some.injEq] at hstmt
    subst hstmt
    obtain ⟨new, hnew, hnewid⟩ := hw.seen_contact hc
    exact TxTable.mem_found.2 ⟨new, hnew, decide_eq_true (hnewid.trans hid)⟩
  proposals i p hp hpending hinvolves := by
    rcases h.proposals i p hp hpending hinvolves with hleft | ⟨hid, hleft⟩
    · by_cases hid : p.id = call.proposal.id
      · refine .inr ⟨hid, .inl ?_⟩
        rcases hleft with hlt | ⟨rfl, -⟩
        · exact hlt.trans (by decide)
        · decide
      · refine .inl (hleft.find fun hcur => ?_)
        rw [hcur, ApplyCall.stmt, Option.some.injEq] at hstmt
        subst hstmt
        exact TxTable.mem_found.2 ⟨p, hp, by simp [ApplyCall.supersedes, hid, hpending, hinvolves]⟩
    · refine .inr ⟨hid, hleft.find fun hcur => ?_⟩
      rw [hcur, ApplyCall.stmt, Option.some.injEq] at hstmt
      subst hstmt
      exact TxTable.mem_found.2 ⟨p, hp, decide_eq_true hid⟩

/-- A statement that is through gives way to the next one. -/
theorem Applying.next (h : Applying call s cur found)
    (hdone : cur ≠ .keeper → found = some []) {cur' : ApplyStmt} (hnext : cur.next = some cur') :
    Applying call s cur' none where
  patch := h.patch
  rows i row ref hrow href := by
    refine (h.rows i row ref hrow href).next (fun hcur => hdone fun hk => ?_) hnext
    rw [hk] at hcur
    cases ref <;> cases hcur
  duplicate i c hc hid :=
    (h.duplicate i c hc hid).imp id fun hleft =>
      hleft.next (fun hcur => hdone fun hk => by rw [hk] at hcur; cases hcur) hnext
  proposals i p hp hpending hinvolves :=
    (h.proposals i p hp hpending hinvolves).imp
      (fun hleft => hleft.next (fun hcur => hdone fun hk => by rw [hk] at hcur; cases hcur) hnext)
      (And.imp_right fun hleft =>
        hleft.next (fun hcur => hdone fun hk => by rw [hk] at hcur; cases hcur) hnext)

/-- After the last statement nothing is left to do. -/
theorem Applying.finished (h : Applying call s .applied (some [])) :
    Finished (some (.merge call.keeperId call.duplicateId)) s := by
  have hno : ∀ stmt i, ¬ LeftFor stmt .applied (some []) i := fun stmt i =>
    LeftFor.not_last rfl fun _ => rfl
  refine
    { rows := fun k d hfp i row ref hrow href => ?_
      duplicate := fun k d hfp i c hc hid => ?_
      proposals := fun k d hfp i p hp hpending hinvolves => ?_ } <;>
    obtain ⟨rfl, rfl⟩ := Footprint.merge.inj (Option.some.inj hfp)
  · exact hno _ _ (h.rows i row ref hrow href)
  · exact (h.duplicate i c hc hid).resolve_right (hno _ _)
  · rcases h.proposals i p hp hpending hinvolves with hleft | ⟨-, hleft⟩
    · exact hno _ _ hleft
    · exact hno _ _ hleft

/-- A statement on a table that another one is for. -/
theorem Applying.skip_proposals (h : Applying call s cur found) (hs : cur ≠ .siblings)
    (ha : cur ≠ .applied) (found' : Option (List ℕ)) (p : MergeProposal)
    (hp : s.proposals.seen i = some p) (hpending : p.status = .pending)
    (hinvolves : p.Involves call.duplicateId) :
    LeftFor .siblings cur found' i ∨
      (p.id = call.proposal.id ∧ LeftFor .applied cur found' i) :=
  (h.proposals i p hp hpending hinvolves).imp (fun hleft => hleft.other hs found')
    (And.imp_right fun hleft => hleft.other ha found')

/-- A row that was redirected no longer refers to the duplicate in the column. -/
theorem Applying.redirect {ref : ContactRef} {rows' : Sight CrmRow}
    (h : Applying call s ref.stmt (some (i :: is))) (hne : call.keeperId ≠ call.duplicateId)
    (hup : s.rows.Updated rows' i (·.contact ref = some call.duplicateId)
      (·.setContact ref call.keeperId)) :
    Applying call { s with rows := rows' } ref.stmt (some is) where
  patch := h.patch
  rows j row other hrow hother := by
    rcases hup.seen_cases hrow with ⟨hold, hskip⟩ | ⟨rfl, v, hv, hp, rfl⟩
    · refine (h.rows j row other hold hother).step fun hcur hj => ?_
      obtain rfl := ContactRef.stmt_injective hcur
      exact of_decide_eq_false (hskip hj) hother
    · by_cases hcur : other = ref
      · subst hcur
        rw [contact_setContact_self (of_decide_eq_true hp), Option.some.injEq] at hother
        exact absurd hother hne
      · rw [contact_setContact_of_ne hcur] at hother
        exact (h.rows j v other hv hother).other
          (fun heq => hcur (ContactRef.stmt_injective heq).symm) _
  duplicate j c hc hid :=
    (h.duplicate j c hc hid).imp id fun hleft => hleft.other (by cases ref <;> decide) _
  proposals j p := by
    exact h.skip_proposals (by cases ref <;> decide) (by cases ref <;> decide) _ p

/-- The duplicate that was archived has its link. -/
theorem Applying.archived {tags : Json} {contacts' : Sight Contact}
    (h : Applying call s .duplicate (some (i :: is))) (hw : WritesFor fp s)
    (hid : call.keeperId ≠ "")
    (hup : s.contacts.Updated contacts' i (·.id = call.duplicateId) (call.archive tags)) :
    Applying call { s with contacts := contacts' } .duplicate (some is) where
  patch := h.patch
  rows j row ref hrow href :=
    (h.rows j row ref hrow href).other (by cases ref <;> decide) _
  duplicate j c hc hcid := by
    have hcom : s.contacts.com j = some c := hup.com ▸ hc
    rcases h.duplicate j c hcom hcid with ⟨c', hown, hinto⟩ | hleft
    · rcases hup.own_kept hown with hkept | ⟨-, hnew⟩
      · exact .inl ⟨c', hkept, hinto⟩
      · exact .inl ⟨_, hnew, mergedInto_archive hid tags c'⟩
    · by_cases hj : j = i
      · subst hj
        obtain ⟨new, hnew, hnewid⟩ := hw.seen_contact hcom
        exact .inl ⟨_, hup.written new hnew (decide_eq_true (hnewid.trans hcid)),
          mergedInto_archive hid tags new⟩
      · exact .inr (hleft.step fun _ => hj)
  proposals j p := h.skip_proposals (by decide) (by decide) _ p

variable {proposals' : Sight MergeProposal}

/-- A sibling that was dismissed is no longer pending. -/
theorem Applying.dismissed {reason : Option String} (h : Applying call s .siblings (some (i :: is)))
    (hup : s.proposals.Updated proposals' i call.supersedes
      fun p => { p with status := .dismissed, dismissReason := reason }) :
    Applying call { s with proposals := proposals' } .siblings (some is) where
  patch := h.patch
  rows j row ref hrow href :=
    (h.rows j row ref hrow href).other (by cases ref <;> decide) _
  duplicate j c hc hid :=
    (h.duplicate j c hc hid).imp id fun hleft => hleft.other (by decide) _
  proposals j p hp hpending hinvolves := by
    rcases hup.seen_cases hp with ⟨hold, hskip⟩ | ⟨-, v, -, -, rfl⟩
    · by_cases hid : p.id = call.proposal.id
      · exact .inr ⟨hid, .inl (by decide)⟩
      · have hsuper : call.supersedes p = true := by
          simp [ApplyCall.supersedes, hid, hpending, hinvolves]
        refine (h.proposals j p hold hpending hinvolves).imp
          (fun hleft => hleft.step fun _ hj => ?_) fun hown => absurd hown.1 hid
        exact Bool.false_ne_true ((hskip hj).symm.trans hsuper)
    · cases hpending

/-- The proposal that was applied is no longer pending. -/
theorem Applying.decided (h : Applying call s .applied (some (i :: is)))
    (hup : s.proposals.Updated proposals' i (·.id = call.proposal.id)
      fun p => { p with status := .applied }) :
    Applying call { s with proposals := proposals' } .applied (some is) where
  patch := h.patch
  rows j row ref hrow href :=
    (h.rows j row ref hrow href).other (by cases ref <;> decide) _
  duplicate j c hc hid :=
    (h.duplicate j c hc hid).imp id fun hleft => hleft.other (by decide) _
  proposals j p hp hpending hinvolves := by
    rcases hup.seen_cases hp with ⟨hold, hskip⟩ | ⟨-, v, -, -, rfl⟩
    · rcases h.proposals j p hold hpending hinvolves with hleft | ⟨hid, hleft⟩
      · exact .inl (hleft.other (by decide) _)
      · refine .inr ⟨hid, hleft.step fun _ hj => ?_⟩
        exact of_decide_eq_false (hskip hj) hid
    · cases hpending

end Applying

/-! ### Quiet steps -/

/-- **A step of a transaction that is not a commit**: nothing is committed, and the others see
nothing of it. -/
structure QuietFor (t : ℕ) (db db' : MergeDb) : Prop where
  others : ∀ u, u ≠ t → db'.sight u = db.sight u
  contacts : db'.contacts.com = db.contacts.com
  rows : db'.rows.com = db.rows.com
  proposals : db'.proposals.com = db.proposals.com
  names : NamesPairs db.proposals → NamesPairs db'.proposals

namespace QuietFor

variable {db db' db'' : MergeDb} {t i : ℕ}

theorem refl (t : ℕ) (db : MergeDb) : QuietFor t db db :=
  ⟨fun _ _ => rfl, rfl, rfl, rfl, id⟩

theorem inv (h : QuietFor t db' db'') (hinv : MergeInv db db') : MergeInv db db'' where
  law := by
    refine ⟨?_, fun i => ?_⟩
    · rw [h.contacts]
      exact hinv.law.acyclic
    · rw [h.contacts, h.rows]
      exact hinv.law.rows i
  ids := by
    rw [h.contacts]
    exact hinv.ids
  distinct := by
    rw [h.contacts]
    exact hinv.distinct
  pending := by
    rw [h.contacts, h.proposals]
    exact hinv.pending
  names := h.names hinv.names

theorem abort (db : MergeDb) (t : ℕ) : QuietFor t db (db.abort t) where
  others u hu := by
    rw [MergeDb.sight, MergeDb.sight, MergeDb.abort, TxTable.sight_abort_of_ne _ hu,
      TxTable.sight_abort_of_ne _ hu, TxTable.sight_abort_of_ne _ hu]
  contacts := funext (TxTable.com_abort db.contacts t)
  rows := funext (TxTable.com_abort db.rows t)
  proposals := funext (TxTable.com_abort db.proposals t)
  names h i j p q hp hq := h i j p q hp.of_abort hq.of_abort

theorem contacts_update {T : TxTable Contact} {p : Contact → Bool} {f : Contact → Contact}
    (h : db.contacts.updateFound t i p f = some T) : QuietFor t db { db with contacts := T } where
  others u hu := by
    rw [MergeDb.sight, MergeDb.sight, TxTable.sight_updateFound_of_ne h hu]
  contacts := (TxTable.sight_updateFound h).com
  rows := rfl
  proposals := rfl
  names := id

theorem rows_update {T : TxTable CrmRow} {p : CrmRow → Bool} {f : CrmRow → CrmRow}
    (h : db.rows.updateFound t i p f = some T) : QuietFor t db { db with rows := T } where
  others u hu := by
    rw [MergeDb.sight, MergeDb.sight, TxTable.sight_updateFound_of_ne h hu]
  contacts := rfl
  rows := (TxTable.sight_updateFound h).com
  proposals := rfl
  names := id

theorem outreach_update (t : ℕ) (db : MergeDb) (T : TxTable OutreachRow) :
    QuietFor t db { db with outreach := T } :=
  ⟨fun _ _ => rfl, rfl, rfl, rfl, id⟩

/-- An update of merge proposals keeps their ids and their contacts. -/
theorem proposals_update {T : TxTable MergeProposal} {p : MergeProposal → Bool}
    {f : MergeProposal → MergeProposal} (h : db.proposals.updateFound t i p f = some T)
    (hf : ∀ v, (f v).id = v.id ∧ (f v).contactAId = v.contactAId ∧
      (f v).contactBId = v.contactBId) : QuietFor t db { db with proposals := T } where
  others u hu := by
    rw [MergeDb.sight, MergeDb.sight, TxTable.sight_updateFound_of_ne h hu]
  contacts := rfl
  rows := rfl
  proposals := (TxTable.sight_updateFound h).com
  names hnames j k q r hq hr hid := by
    have hold : ∀ j q, T.Has j q → ∃ k v, db.proposals.Has k v ∧ v.id = q.id ∧
        v.contactAId = q.contactAId ∧ v.contactBId = q.contactBId := by
      intro j q hq
      rcases hq.of_updateFound h with hq | ⟨-, v, hv, rfl⟩
      · exact ⟨j, q, hq, rfl, rfl, rfl⟩
      · obtain ⟨hid, ha, hb⟩ := hf v
        exact ⟨i, v, hv, hid.symm, ha.symm, hb.symm⟩
    obtain ⟨j', q', hq', hqid, hqa, hqb⟩ := hold j q hq
    obtain ⟨k', r', hr', hrid, hra, hrb⟩ := hold k r hr
    obtain ⟨ha, hb⟩ := hnames j' k' q' r' hq' hr' (hqid.trans (hid.trans hrid.symm))
    exact ⟨hqa.symm.trans (ha.trans hra), hqb.symm.trans (hb.trans hrb)⟩

/-- A new id names a new pair. -/
theorem proposals_insert (row : MergeProposal)
    (hfresh : ∀ i p, db.proposals.Has i p → p.id ≠ row.id) :
    QuietFor t db { db with proposals := db.proposals ++ [⟨none, some (t, row)⟩] } where
  others u hu := by
    rw [MergeDb.sight, MergeDb.sight, TxTable.sight_append_of_ne _ _ hu]
  contacts := rfl
  rows := rfl
  proposals := funext fun i => TxTable.com_append _ t i row
  names hnames i j p q hp hq hid := by
    rcases hp.of_append with hold | ⟨-, rfl⟩ <;> rcases hq.of_append with hold' | ⟨-, rfl⟩
    · exact hnames i j p q hold hold' hid
    · exact absurd hid (hfresh i p hold)
    · exact absurd hid.symm (hfresh j q hold')
    · exact ⟨rfl, rfl⟩

end QuietFor

/-! ### The calls, statement by statement -/

/-- What a statement does: it is quiet and leads on, or it takes everything back, or it commits. -/
def StepOk (t : ℕ) (point : MergePoint) (db db' : MergeDb) (next : Option MergePoint) : Prop :=
  (∃ point', next = some point' ∧ QuietFor t db db' ∧ PointOk (db'.sight t) point') ∨
    (next = none ∧ db' = db.abort t) ∨
    (next = none ∧ db' = db.commit t ∧ Finished point.footprint (db.sight t))

section Step

variable {db start db' : MergeDb} {t : ℕ} {next : Option MergePoint} {point : MergePoint}

theorem stepOk_abort (t : ℕ) (point : MergePoint) (db : MergeDb) :
    StepOk t point db (db.abort t) none :=
  .inr (.inl ⟨rfl, rfl⟩)

/-- A read that leads on. -/
theorem stepOk_read {point' : MergePoint} (h : PointOk (db.sight t) point') :
    StepOk t point db db (some point') :=
  .inl ⟨point', rfl, .refl t db, h⟩

variable {id : String} {p : MergeProposal} {input : ProposeInput} {fails : Bool}
  {found : Option (List ℕ)} {call : ApplyCall} {stmt : ApplyStmt}

theorem contact_eq_some {c : Contact} (h : db.contact t id = some c) :
    ∃ i, db.contacts.seen t i = some c ∧ c.id = id := by
  unfold MergeDb.contact at h
  obtain ⟨i, hseen⟩ := TxTable.mem_view.1 (List.mem_of_find?_eq_some h)
  exact ⟨i, hseen, by simpa using List.find?_some h⟩

theorem proposal_eq_some (h : db.proposal t id = some p) :
    ∃ i, db.proposals.seen t i = some p ∧ p.id = id := by
  unfold MergeDb.proposal at h
  obtain ⟨i, hseen⟩ := TxTable.mem_view.1 (List.mem_of_find?_eq_some h)
  exact ⟨i, hseen, by simpa using List.find?_some h⟩

/-- What a call that has written nothing of contacts reads of one. -/
theorem standing_of_read {c : Contact} (hinv : MergeInv start db)
    (hw : WritesFor none (db.sight t)) (hc : db.contact t id = some c)
    (hnone : c.mergedInto.isSome = false) : Standing db.contacts.com id := by
  obtain ⟨i, hseen, hid⟩ := contact_eq_some hc
  rcases Sight.seen_cases (s := db.contacts.sight t) hseen with hown | ⟨-, hcom⟩
  · obtain ⟨k, d, old, hfp, -⟩ := hw.contacts i c hown
    cases hfp
  · refine ⟨⟨i, c, hcom, hid⟩, fun ⟨b, j, c', hc', hid', hinto⟩ => ?_⟩
    obtain rfl := hinv.distinct i j c c' hcom hc' (hid.trans hid'.symm)
    obtain rfl : c = c' := Option.some.inj (hcom.symm.trans hc')
    rw [hinto] at hnone
    cases hnone

/-- A pending proposal that is read by a call that has proposed nothing. -/
theorem pending_of_read (hinv : MergeInv start db)
    (hw : WritesFor none (db.sight t)) (hp : db.proposal t id = some p)
    (hpending : p.status = .pending) :
    Stands db.contacts.com (.propose p.contactAId p.contactBId) ∧ p.KeepsOne := by
  obtain ⟨i, hseen, -⟩ := proposal_eq_some hp
  rcases Sight.seen_cases (s := db.proposals.sight t) hseen with hown | ⟨-, hcom⟩
  · obtain ⟨hfp, -⟩ := hw.pending i p hown hpending
    cases hfp
  · exact hinv.pending i p hcom hpending

/-- A proposal of two contacts that stand is a merge of one into the other. -/
theorem stands_merge {contacts : ℕ → Option Contact}
    (h : Stands contacts (.propose p.contactAId p.contactBId)) (hkeeps : p.KeepsOne) :
    Stands contacts (.merge p.recommendedKeeperId p.duplicateId) := by
  obtain ⟨hne, ha, hb⟩ := h
  unfold MergeProposal.duplicateId
  split
  · rename_i hkeeper
    rw [hkeeper]
    exact ⟨hne, ha, hb.1⟩
  · rename_i hkeeper
    rw [hkeeps.resolve_left hkeeper]
    exact ⟨hne.symm, hb, ha.1⟩

theorem canonicalizePair_ne {a b : String} (h : a ≠ b) :
    (canonicalizePair a b).1 ≠ (canonicalizePair a b).2 := by
  unfold canonicalizePair
  split
  · exact h
  · exact h.symm

theorem propose_ok (hinv : MergeInv start db) (hok : PointOk (db.sight t) (.propose input fails))
    (h : MergePoint.exec t (.propose input fails) db = some (db', next)) :
    StepOk t (.propose input fails) db db' next := by
  delta MergePoint.exec at h
  dsimp only at h
  split at h
  · cases h
    exact stepOk_abort ..
  · rename_i hne
    split at h
    · rename_i a b ha hb
      split at h
      · cases h
        exact stepOk_abort ..
      · rename_i hkeeper
        split at h
        · cases h
          exact stepOk_abort ..
        · rename_i hmerged
          cases h
          rw [Bool.or_eq_true, not_or, Bool.not_eq_true, Bool.not_eq_true] at hmerged
          refine stepOk_read ⟨?_, hok.writes.of_none _, ?_⟩
          · rintro _ ⟨⟩
            exact ⟨canonicalizePair_ne hne, standing_of_read hinv hok.writes ha hmerged.1,
              standing_of_read hinv hok.writes hb hmerged.2⟩
          · change input.recommendedKeeperId = input.a ∨ input.recommendedKeeperId = input.b
            simpa [Classical.or_iff_not_imp_left] using hkeeper
    · cases h
      exact stepOk_abort ..

theorem proposeApplied_ok (hok : PointOk (db.sight t) (.proposeApplied input fails))
    (h : MergePoint.exec t (.proposeApplied input fails) db = some (db', next)) :
    StepOk t (.proposeApplied input fails) db db' next := by
  delta MergePoint.exec at h
  dsimp only at h
  split at h
  · cases h
    exact stepOk_abort ..
  · cases h
    exact stepOk_read ⟨hok.stands, hok.writes, hok.progress⟩

theorem proposePending_ok (hok : PointOk (db.sight t) (.proposePending input fails))
    (h : MergePoint.exec t (.proposePending input fails) db = some (db', next)) :
    StepOk t (.proposePending input fails) db db' next := by
  delta MergePoint.exec at h
  dsimp only at h
  split at h
  · rename_i p hp
    cases h
    obtain ⟨i, hseen⟩ := TxTable.mem_view.1 (List.mem_of_find?_eq_some hp)
    have hof : input.IsOf p := by
      have hfound := List.find?_some hp
      rw [Bool.and_eq_true] at hfound
      exact of_decide_eq_true hfound.1
    exact stepOk_read ⟨hok.stands, hok.writes, hok.progress, i, p, hseen, rfl, hof⟩
  · cases h
    exact stepOk_read ⟨hok.stands, hok.writes, hok.progress⟩

theorem proposeUpdate_ok (hnames : NamesPairs db.proposals)
    (hok : PointOk (db.sight t) (.proposeUpdate input fails id found))
    (h : MergePoint.exec t (.proposeUpdate input fails id found) db = some (db', next)) :
    StepOk t (.proposeUpdate input fails id found) db db' next := by
  obtain ⟨hkeeps, j, q, hq, hqid, hof⟩ := hok.progress
  delta MergePoint.exec at h
  dsimp only at h
  match found with
  | none =>
    cases h
    exact stepOk_read ⟨hok.stands, hok.writes, hkeeps, j, q, hq, hqid, hof⟩
  | some [] =>
    cases h
    exact stepOk_read ⟨hok.stands, hok.writes, trivial⟩
  | some (i :: is) =>
    simp only [MergePoint.updateProposals, MergeDb.update, Option.map_map,
      Option.map_eq_some_iff] at h
    obtain ⟨T, hT, heq⟩ := h
    cases heq
    have hup := TxTable.sight_updateFound hT
    refine .inl ⟨_, rfl, .proposals_update hT fun v => ⟨rfl, rfl, rfl⟩, ?_, ?_, hkeeps, ?_⟩
    · exact hok.stands
    · refine hok.writes.update_proposals hup (fun _ => rfl) fun v hv hp _ => ?_
      -- A row with the id is of the pair that is proposed.
      obtain ⟨ha, hb⟩ := hnames i j v q (TxTable.has_of_seen hv) (TxTable.has_of_seen hq)
        ((of_decide_eq_true hp).trans hqid.symm)
      have hpair : (input.refile v).contactAId = input.a ∧ (input.refile v).contactBId = input.b :=
        ⟨ha.trans hof.1, hb.trans hof.2⟩
      rw [MergeProposal.KeepsOne, hpair.1, hpair.2]
      exact ⟨rfl, hkeeps⟩
    · rcases hup.seen_kept hq with hkept | hnew
      · exact ⟨j, q, hkept, hqid, hof⟩
      · exact ⟨j, _, hnew, hqid, hof⟩

theorem proposeInsert_ok (hok : PointOk (db.sight t) (.proposeInsert input fails))
    (h : MergePoint.exec t (.proposeInsert input fails) db = some (db', next)) :
    StepOk t (.proposeInsert input fails) db db' next := by
  delta MergePoint.exec at h
  dsimp only at h
  split at h
  · cases h
    exact stepOk_abort ..
  · rename_i hfresh
    obtain ⟨⟨proposals, done⟩, hinsert, h⟩ := Option.map_eq_some_iff.1 h
    rcases TxTable.insert_eq_some hinsert with ⟨rfl, -, -⟩ | ⟨rfl, rfl, -⟩
    · cases h
      exact stepOk_abort ..
    · cases h
      refine .inl ⟨_, rfl, .proposals_insert input.row fun i p hp hid => hfresh ?_, hok.stands,
        ?_, trivial⟩
      · obtain ⟨r, hr, hv⟩ := hp.mem_values
        exact List.any_eq_true.2 ⟨r, hr, List.any_eq_true.2 ⟨p, hv, decide_eq_true hid⟩⟩
      · have hown : ∀ i p, TxTable.own (db.proposals ++ [⟨none, some (t, input.row)⟩]) t i = some p →
            db.proposals.own t i = some p ∨ (i = db.proposals.length ∧ p = input.row) := by
          intro i p hp
          rw [TxTable.own_append] at hp
          split at hp
          · rename_i hlast
            exact .inr ⟨hlast.2, (Option.some.inj hp).symm⟩
          · exact .inl hp
        refine
          { contacts := hok.writes.contacts, rows := hok.writes.rows
            ids := fun i p q hp hq => ?_, pending := fun i p hp hpending => ?_ }
        · have hq' : db.proposals.com i = some q := (TxTable.com_append _ t i input.row) ▸ hq
          rcases hown i p hp with hold | ⟨rfl, -⟩
          · exact hok.writes.ids i p q hold hq'
          · rw [TxTable.com, List.getElem?_eq_none le_rfl] at hq'
            cases hq'
        · rcases hown i p hp with hold | ⟨-, rfl⟩
          · exact hok.writes.pending i p hold hpending
          · exact ⟨rfl, hok.progress⟩

/-- A call that merges nothing has nothing left to do. -/
theorem finished_of_not_merge {fp : Option Footprint} {s : MergeSight}
    (h : ∀ k d, fp ≠ some (.merge k d)) : Finished fp s where
  rows k d hfp := absurd hfp (h k d)
  duplicate k d hfp := absurd hfp (h k d)
  proposals k d hfp := absurd hfp (h k d)

theorem proposeCommit_ok
    (h : MergePoint.exec t (.proposeCommit input fails) db = some (db', next)) :
    StepOk t (.proposeCommit input fails) db db' next := by
  cases fails with
  | true =>
    cases h
    exact stepOk_abort ..
  | false =>
    cases h
    exact .inr (.inr ⟨rfl, rfl, finished_of_not_merge fun k d hfp => by cases hfp⟩)

theorem applyRead_ok {fingerprint : String} {env : MergeEnv} {fails : Option ApplyStmt}
    (hinv : MergeInv start db) (hok : PointOk (db.sight t) (.applyRead id fingerprint env fails))
    (hpatch : ∀ p, db.proposal t id = some p → NamesNoLink p.recommendedPatch)
    (h : MergePoint.exec t (.applyRead id fingerprint env fails) db = some (db', next)) :
    StepOk t (.applyRead id fingerprint env fails) db db' next := by
  delta MergePoint.exec at h
  dsimp only at h
  split at h
  · cases h
    exact stepOk_abort ..
  · rename_i p hp
    split at h
    · cases h
      exact stepOk_abort ..
    · rename_i hcheck
      cases h
      have hpending : p.status = .pending := by
        by_contra hno
        exact hcheck (by simp [hno])
      obtain ⟨hpair, hkeeps⟩ := pending_of_read hinv hok.writes hp hpending
      refine stepOk_read ⟨?_, hok.writes.of_none _, hpatch p hp⟩
      rintro _ ⟨⟩
      exact stands_merge hpair hkeeps

theorem applyContacts_ok {env : MergeEnv} {fails : Option ApplyStmt}
    (hok : PointOk (db.sight t) (.applyContacts p env fails))
    (h : MergePoint.exec t (.applyContacts p env fails) db = some (db', next)) :
    StepOk t (.applyContacts p env fails) db db' next := by
  delta MergePoint.exec at h
  dsimp only at h
  split at h
  · rename_i keeper duplicate _ _
    cases h
    have hpatch : NamesNoLink (ApplyCall.mk p keeper duplicate env).proposal.recommendedPatch :=
      hok.progress
    have hfirst : Applying ⟨p, keeper, duplicate, env⟩ (db.sight t) .keeper none :=
      .first hpatch none
    exact stepOk_read ⟨hok.stands, hok.writes, hfirst⟩
  · cases h
    exact stepOk_abort ..

/-- A statement that is through gives way to the next one, or to the commit. -/
theorem afterStmt_ok {fails : Option ApplyStmt}
    (hok : PointOk (db.sight t) (.apply call fails stmt found))
    (hdone : stmt ≠ .keeper → found = some []) :
    StepOk t (.apply call fails stmt found) db db
      (some (MergePoint.afterStmt call fails stmt)) := by
  refine stepOk_read ?_
  unfold MergePoint.afterStmt
  split
  · rename_i stmt' hnext
    exact ⟨hok.stands, hok.writes, Applying.next hok.progress hdone hnext⟩
  · rename_i hlast
    have hstmt : stmt = .applied := by
      cases stmt <;> first | rfl | cases hlast
    subst hstmt
    refine ⟨hok.stands, hok.writes, ?_⟩
    rw [hdone (by decide)] at hok
    exact hok.progress

/-- **A statement of a merge at one of its rows.** -/
theorem applyUpdate_ok {fails : Option ApplyStmt}
    {update : MergeUpdate} {i : ℕ} {is : List ℕ} (hinv : MergeInv start db)
    (hok : PointOk (db.sight t) (.apply call fails stmt (some (i :: is))))
    (hstmt : call.stmt stmt = some update) (h : db.update t i update = some db') :
    QuietFor t db db' ∧ PointOk (db'.sight t) (.apply call fails stmt (some is)) := by
  have hprogress : Applying call (db.sight t) stmt (some (i :: is)) := hok.progress
  have hwrites : WritesFor (some (.merge call.keeperId call.duplicateId)) (db.sight t) := hok.writes
  have hstands : Stands db.contacts.com (.merge call.keeperId call.duplicateId) :=
    hok.stands _ rfl
  have hrows : ∀ ref : ContactRef, stmt = ref.stmt →
      QuietFor t db db' ∧ PointOk (db'.sight t) (.apply call fails stmt (some is)) := by
    rintro ref rfl
    rw [ApplyCall.stmt_ref, Option.some.injEq] at hstmt
    subst hstmt
    obtain ⟨T, hT, rfl⟩ := Option.map_eq_some_iff.1 h
    have hup := TxTable.sight_updateFound hT
    exact ⟨.rows_update hT, hok.stands, hwrites.update_rows hup, hprogress.redirect hstands.1 hup⟩
  cases stmt with
  | activities => exact hrows .activity rfl
  | deals => exact hrows .deal rfl
  | fromEnds => exact hrows .fromEnd rfl
  | toEnds => exact hrows .toEnd rfl
  | keeper =>
    simp only [ApplyCall.stmt] at hstmt
    split at hstmt
    · cases hstmt
    · cases hstmt
      obtain ⟨T, hT, rfl⟩ := Option.map_eq_some_iff.1 h
      have hup := TxTable.sight_updateFound hT
      refine ⟨.contacts_update hT, fun g hg => ?_, hwrites.update_contacts hup fun c hc hp => ?_,
        .first hprogress.patch _⟩
      · have hcom : T.com = db.contacts.com := hup.com
        change Stands T.com g
        exact hcom ▸ hok.stands g hg
      · have hid : c.id = call.keeperId := of_decide_eq_true hp
        refine ⟨rfl, .inl ⟨hid, mergedInto_patchKeeper ?_ hprogress.patch⟩⟩
        -- The keeper was not merged away, and what the call has written of it has no link.
        rcases Sight.seen_cases hc with hown | ⟨-, hcom⟩
        · obtain ⟨k, d, old, hfp, -, -, ⟨-, hnone⟩ | ⟨hd, -⟩⟩ := hwrites.contacts i c hown
          · exact hnone
          · rw [Option.some.injEq, Footprint.merge.injEq] at hfp
            exact absurd (hid.symm.trans (hd.trans hfp.2.symm)) hstands.1
        · exact Option.eq_none_iff_forall_ne_some.2 fun b hb =>
            hstands.2.1.2 ⟨b, i, c, hcom, hid, hb⟩
  | outreach =>
    cases hstmt
    obtain ⟨T, hT, rfl⟩ := Option.map_eq_some_iff.1 h
    exact ⟨.outreach_update t db T, hok.stands, hwrites,
      { patch := hprogress.patch
        rows := fun j row ref hrow href =>
          (hprogress.rows j row ref hrow href).other (by cases ref <;> decide) _
        duplicate := fun j c hc hid =>
          (hprogress.duplicate j c hc hid).imp id fun hleft => hleft.other (by decide) _
        proposals := fun j p => hprogress.skip_proposals (by decide) (by decide) _ p }⟩
  | duplicate =>
    cases hstmt
    obtain ⟨T, hT, rfl⟩ := Option.map_eq_some_iff.1 h
    have hup := TxTable.sight_updateFound hT
    have hid : call.keeperId ≠ "" := by
      obtain ⟨j, c, hc, hcid⟩ := hstands.2.1.1
      exact hcid ▸ hinv.ids j c hc
    refine ⟨.contacts_update hT, fun g hg => ?_, hwrites.update_contacts hup fun c hc hp => ?_,
      hprogress.archived hwrites hid hup⟩
    · have hcom : T.com = db.contacts.com := hup.com
      change Stands T.com g
      exact hcom ▸ hok.stands g hg
    · exact ⟨rfl, .inr ⟨of_decide_eq_true hp, mergedInto_archive hid _ c⟩⟩
  | siblings =>
    cases hstmt
    obtain ⟨T, hT, rfl⟩ := Option.map_eq_some_iff.1 h
    have hup := TxTable.sight_updateFound hT
    refine ⟨.proposals_update hT fun _ => ⟨rfl, rfl, rfl⟩, hok.stands,
      hwrites.update_proposals hup (fun _ => rfl) fun v _ _ hpending => ?_, hprogress.dismissed hup⟩
    cases hpending
  | applied =>
    cases hstmt
    obtain ⟨T, hT, rfl⟩ := Option.map_eq_some_iff.1 h
    have hup := TxTable.sight_updateFound hT
    refine ⟨.proposals_update hT fun _ => ⟨rfl, rfl, rfl⟩, hok.stands,
      hwrites.update_proposals hup (fun _ => rfl) fun v _ _ hpending => ?_, hprogress.decided hup⟩
    cases hpending

theorem apply_ok {fails : Option ApplyStmt} (hinv : MergeInv start db)
    (hok : PointOk (db.sight t) (.apply call fails stmt found))
    (h : MergePoint.exec t (.apply call fails stmt found) db = some (db', next)) :
    StepOk t (.apply call fails stmt found) db db' next := by
  delta MergePoint.exec at h
  dsimp only at h
  split at h
  · rename_i hnone
    cases h
    refine afterStmt_ok hok fun hstmt => ?_
    cases stmt <;> first | exact absurd rfl hstmt | cases hnone
  · cases h
    exact afterStmt_ok hok fun _ => rfl
  · rename_i update hstmt
    split at h
    · cases h
      exact stepOk_abort ..
    · cases h
      exact stepOk_read ⟨hok.stands, hok.writes, Applying.find hok.progress hok.writes hstmt⟩
  · rename_i update i is hstmt
    obtain ⟨db'', hupdate, heq⟩ := Option.map_eq_some_iff.1 h
    cases heq
    obtain ⟨hquiet, hpoint⟩ := applyUpdate_ok hinv hok hstmt hupdate
    exact .inl ⟨_, rfl, hquiet, hpoint⟩

variable {reason : Option String}

theorem dismiss_ok (hok : PointOk (db.sight t) (.dismiss id reason fails))
    (h : MergePoint.exec t (.dismiss id reason fails) db = some (db', next)) :
    StepOk t (.dismiss id reason fails) db db' next := by
  delta MergePoint.exec at h
  dsimp only at h
  split at h
  · cases h
    exact stepOk_abort ..
  · split at h
    · cases h
      exact stepOk_abort ..
    · cases h
      exact stepOk_read ⟨hok.stands, hok.writes, trivial⟩

theorem dismissUpdate_ok (hok : PointOk (db.sight t) (.dismissUpdate p reason fails found))
    (h : MergePoint.exec t (.dismissUpdate p reason fails found) db = some (db', next)) :
    StepOk t (.dismissUpdate p reason fails found) db db' next := by
  delta MergePoint.exec at h
  dsimp only at h
  match found with
  | none | some [] =>
    cases h
    exact stepOk_read ⟨hok.stands, hok.writes, trivial⟩
  | some (i :: is) =>
    simp only [MergePoint.updateProposals, MergeDb.update, Option.map_map,
      Option.map_eq_some_iff] at h
    obtain ⟨T, hT, heq⟩ := h
    cases heq
    refine .inl ⟨_, rfl, .proposals_update hT fun v => ⟨rfl, rfl, rfl⟩, hok.stands, ?_, trivial⟩
    refine hok.writes.update_proposals (TxTable.sight_updateFound hT) (fun _ => rfl)
      fun v _ _ hpending => ?_
    cases hpending

theorem dismissCommit_ok (h : MergePoint.exec t (.dismissCommit p fails) db = some (db', next)) :
    StepOk t (.dismissCommit p fails) db db' next := by
  delta MergePoint.exec at h
  dsimp only at h
  split at h
  · cases h
    exact stepOk_abort ..
  · cases h
    exact .inr (.inr ⟨rfl, rfl, finished_of_not_merge fun k d hfp => by cases hfp⟩)

/-- **What each statement does.** -/
theorem exec_cases (hinv : MergeInv start db) (hok : PointOk (db.sight t) point)
    (hpatch : point.LinksNothing t db)
    (h : MergePoint.exec t point db = some (db', next)) : StepOk t point db db' next := by
  cases point with
  | propose input fails => exact propose_ok hinv hok h
  | proposeApplied input fails => exact proposeApplied_ok hok h
  | proposePending input fails => exact proposePending_ok hok h
  | proposeUpdate input fails id found => exact proposeUpdate_ok hinv.names hok h
  | proposeInsert input fails => exact proposeInsert_ok hok h
  | proposeCommit input fails => exact proposeCommit_ok h
  | applyRead id fingerprint env fails => exact applyRead_ok hinv hok hpatch h
  | applyContacts p env fails => exact applyContacts_ok hok h
  | apply call fails stmt found => exact apply_ok hinv hok h
  | applyCommit call =>
    cases h
    exact .inr (.inr ⟨rfl, rfl, Applying.finished hok.progress⟩)
  | dismiss id reason fails => exact dismiss_ok hok h
  | dismissUpdate p reason fails found => exact dismissUpdate_ok hok h
  | dismissCommit p fails => exact dismissCommit_ok h

end Step

end Munin
