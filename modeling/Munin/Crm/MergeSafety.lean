import Munin.Crm.MergeSessions
import Munin.Foundations.Digraph

/-!
# Merges that do not overlap strand nothing

If no two calls overlap, merges keep the contacts a forest with all data at its roots.

* **`StrandsNothing`** — the law: the links of merged contacts form no cycle, and each row is still
  there, with the contacts that it had, or with others where those were merged away.
* **`WritesFor`, `Applying`** — what a transaction has written so far, by the contacts that its call
  is about, and what it has still to do before it may commit.
* **`PointOk.commit`** — a commit disturbs no call that it does not overlap.
* **`merges_strand_nothing`** — so the law holds in every state of every run without overlaps.
-/

namespace Munin

open Foundations

/-! ### The law -/

/-- There is a contact with the id. -/
def IsContact (contacts : ℕ → Option Contact) (id : String) : Prop :=
  ∃ i c, contacts i = some c ∧ c.id = id

/-- A contact was merged into another. -/
def LinksTo (contacts : ℕ → Option Contact) (a b : String) : Prop :=
  ∃ i c, contacts i = some c ∧ c.id = a ∧ c.mergedInto = some b

/-- A contact was merged away. -/
def MergedAway (contacts : ℕ → Option Contact) (a : String) : Prop :=
  ∃ b, LinksTo contacts a b

/-- A contact that was not merged away. -/
def Standing (contacts : ℕ → Option Contact) (a : String) : Prop :=
  IsContact contacts a ∧ ¬ MergedAway contacts a

/-- What a row says besides its contacts. -/
def CrmRow.rest : CrmRow → CrmRow
  | .activity id _ => .activity id none
  | .deal id _ => .deal id none
  | .relationship id fromType fromId toType toId =>
    .relationship id fromType (if fromType = "contact" then "" else fromId) toType
      (if toType = "contact" then "" else toId)

/-- **A row that was carried over**: it says what it said besides its contacts; each of them is the
one that it had, or there is another one in its place and that one was merged away; and none that it
has now was merged away. -/
structure CarriedOver (contacts : ℕ → Option Contact) (row row' : CrmRow) : Prop where
  rest : row'.rest = row.rest
  moved : ∀ ref, row'.contact ref = row.contact ref ∨
    ∃ x y, row.contact ref = some x ∧ MergedAway contacts x ∧ row'.contact ref = some y ∧
      IsContact contacts y
  unmerged : ∀ ref x, row'.contact ref = some x → ¬ MergedAway contacts x

/-- **Nothing is stranded**: the links form no cycle, and the rows are those that there were, each
carried over. -/
structure StrandsNothing (db db' : MergeDb) : Prop where
  acyclic : Acyclic (LinksTo db'.contacts.com)
  rows : ∀ i, Option.Rel (CarriedOver db'.contacts.com) (db.rows.com i) (db'.rows.com i)

/-- Where runs start: no transaction has written anything, contacts have distinct ids, the merges
that there were have left a forest with all rows at its roots, and nothing is proposed. -/
structure MergeDb.Fresh (db : MergeDb) : Prop where
  contacts : ∀ t i, db.contacts.own t i = none
  rows : ∀ t i, db.rows.own t i = none
  proposals : db.proposals = []
  ids : ∀ i c, db.contacts.com i = some c → c.id ≠ ""
  distinct : ∀ i j c d, db.contacts.com i = some c → db.contacts.com j = some d → c.id = d.id →
    i = j
  acyclic : Acyclic (LinksTo db.contacts.com)
  unmerged : ∀ i row ref x, db.rows.com i = some row → row.contact ref = some x →
    ¬ MergedAway db.contacts.com x

/-! ### What a call knows and writes -/

/-- The database as it is to one transaction. -/
structure MergeSight where
  contacts : Sight Contact
  rows : Sight CrmRow
  proposals : Sight MergeProposal

def MergeDb.sight (db : MergeDb) (t : ℕ) : MergeSight where
  contacts := db.contacts.sight t
  rows := db.rows.sight t
  proposals := db.proposals.sight t

/-- What holds of the contacts that a call is about, as long as it is at work. -/
def Stands (contacts : ℕ → Option Contact) : Footprint → Prop
  | .merge k d => k ≠ d ∧ Standing contacts k ∧ IsContact contacts d
  | .propose a b => a ≠ b ∧ Standing contacts a ∧ Standing contacts b

/-- The keeper of a proposal is one of its contacts. -/
def MergeProposal.KeepsOne (p : MergeProposal) : Prop :=
  p.recommendedKeeperId = p.contactAId ∨ p.recommendedKeeperId = p.contactBId

/-- **What a transaction has written**: of contacts, its keeper and its duplicate, the latter with
the link; of rows, those of the duplicate, as the keeper's; of merge proposals, pending ones only of
the pair that it proposes. -/
structure WritesFor (fp : Option Footprint) (s : MergeSight) : Prop where
  contacts : ∀ i c, s.contacts.own i = some c → ∃ k d old, fp = some (.merge k d) ∧
    s.contacts.com i = some old ∧ old.id = c.id ∧
    (c.id = k ∧ c.mergedInto = none ∨ c.id = d ∧ c.mergedInto = some k)
  rows : ∀ i row, s.rows.own i = some row → ∃ k d old, fp = some (.merge k d) ∧
    s.rows.com i = some old ∧ row.rest = old.rest ∧
    ∀ ref, row.contact ref = old.contact ref ∨
      (old.contact ref = some d ∧ row.contact ref = some k)
  ids : ∀ i p q, s.proposals.own i = some p → s.proposals.com i = some q → p.id = q.id
  pending : ∀ i p, s.proposals.own i = some p → p.status = .pending →
    fp = some (.propose p.contactAId p.contactBId) ∧ p.KeepsOne

/-- What is to be done when a transaction commits. -/
structure Finished (fp : Option Footprint) (s : MergeSight) : Prop where
  rows : ∀ k d, fp = some (.merge k d) → ∀ i row ref, s.rows.seen i = some row →
    row.contact ref ≠ some d
  duplicate : ∀ k d, fp = some (.merge k d) → ∀ i c, s.contacts.com i = some c → c.id = d →
    ∃ c', s.contacts.own i = some c' ∧ c'.mergedInto = some k
  proposals : ∀ k d, fp = some (.merge k d) → ∀ i p, s.proposals.seen i = some p →
    p.status = .pending → ¬ p.Involves d

/-! ### The statements that are left -/

/-- The place of a statement. -/
def ApplyStmt.rank : ApplyStmt → ℕ
  | .keeper => 0
  | .activities => 1
  | .deals => 2
  | .fromEnds => 3
  | .toEnds => 4
  | .outreach => 5
  | .duplicate => 6
  | .siblings => 7
  | .applied => 8

theorem ApplyStmt.rank_injective {s s' : ApplyStmt} (h : s.rank = s'.rank) : s = s' := by
  cases s <;> cases s' <;> first | rfl | cases h

theorem ApplyStmt.rank_next {s s' : ApplyStmt} (h : s.next = some s') :
    s'.rank = s.rank + 1 := by
  cases s <;> cases h <;> rfl

/-- The statement that redirects the rows by a column. -/
def ContactRef.stmt : ContactRef → ApplyStmt
  | .activity => .activities
  | .deal => .deals
  | .fromEnd => .fromEnds
  | .toEnd => .toEnds

theorem ContactRef.stmt_injective {ref other : ContactRef} (h : ref.stmt = other.stmt) :
    ref = other := by
  cases ref <;> cases other <;> first | rfl | cases h

/-- A statement has a row still before it. -/
def LeftFor (s cur : ApplyStmt) (found : Option (List ℕ)) (i : ℕ) : Prop :=
  cur.rank < s.rank ∨ (cur = s ∧ ∀ is, found = some is → i ∈ is)

namespace LeftFor

variable {s cur : ApplyStmt} {found : Option (List ℕ)} {i : ℕ}

theorem other (h : LeftFor s cur found i) (hs : cur ≠ s) (found' : Option (List ℕ)) :
    LeftFor s cur found' i :=
  h.imp id fun h => absurd h.1 hs

theorem find (h : LeftFor s cur none i) {is : List ℕ} (hi : cur = s → i ∈ is) :
    LeftFor s cur (some is) i := by
  refine h.imp id fun ⟨hs, _⟩ => ⟨hs, fun is' his => ?_⟩
  rw [Option.some.injEq] at his
  exact his ▸ hi hs

theorem step {j : ℕ} {is : List ℕ} (h : LeftFor s cur (some (j :: is)) i) (hi : cur = s → i ≠ j) :
    LeftFor s cur (some is) i := by
  refine h.imp id fun ⟨hs, hmem⟩ => ⟨hs, fun is' his => ?_⟩
  rw [Option.some.injEq] at his
  exact his ▸ (List.mem_cons.1 (hmem _ rfl)).resolve_left (hi hs)

theorem next (h : LeftFor s cur found i) (hdone : cur = s → found = some []) {s' : ApplyStmt}
    (hnext : cur.next = some s') : LeftFor s s' none i := by
  rcases h with hlt | ⟨hs, hmem⟩
  · have hrank := ApplyStmt.rank_next hnext
    rcases Nat.lt_or_ge s'.rank s.rank with hlt' | hge
    · exact .inl hlt'
    · exact .inr ⟨ApplyStmt.rank_injective (by omega), fun is his => by cases his⟩
  · exact absurd (hmem [] (hdone hs)) List.not_mem_nil

/-- After the last statement nothing is left. -/
theorem not_last (hnext : cur.next = none) (hdone : cur = s → found = some []) :
    ¬ LeftFor s cur found i := by
  have hcur : cur = .applied := by
    cases cur <;> first | rfl | cases hnext
  rintro (hlt | ⟨hs, hmem⟩)
  · rw [hcur] at hlt
    cases s <;> exact absurd hlt (by decide)
  · exact List.not_mem_nil (hmem [] (hdone hs))

end LeftFor

/-- **How far a merge has come**: what has still to be done is left for a statement to come. -/
structure Applying (call : ApplyCall) (s : MergeSight) (cur : ApplyStmt)
    (found : Option (List ℕ)) : Prop where
  patch : NamesNoLink call.proposal.recommendedPatch
  rows : ∀ i row ref, s.rows.seen i = some row → row.contact ref = some call.duplicateId →
    LeftFor ref.stmt cur found i
  duplicate : ∀ i c, s.contacts.com i = some c → c.id = call.duplicateId →
    (∃ c', s.contacts.own i = some c' ∧ c'.mergedInto = some call.keeperId) ∨
      LeftFor .duplicate cur found i
  proposals : ∀ i p, s.proposals.seen i = some p → p.status = .pending →
    p.Involves call.duplicateId →
    LeftFor .siblings cur found i ∨ (p.id = call.proposal.id ∧ LeftFor .applied cur found i)

/-- What a call knows where it stands, besides what its footprint says. -/
def Progress (s : MergeSight) : MergePoint → Prop
  | .proposeApplied input _ | .proposePending input _ | .proposeInsert input _ =>
    input.row.KeepsOne
  | .proposeUpdate input _ id _ => input.row.KeepsOne ∧
    ∃ i p, s.proposals.seen i = some p ∧ p.id = id ∧ input.IsOf p
  | .applyContacts p _ _ => NamesNoLink p.recommendedPatch
  | .apply call _ stmt found => Applying call s stmt found
  | .applyCommit call => Applying call s .applied (some [])
  | .propose .. | .proposeCommit .. | .applyRead .. | .dismiss .. | .dismissUpdate ..
  | .dismissCommit .. => True

/-- **What holds of a call at work.** -/
structure PointOk (s : MergeSight) (point : MergePoint) : Prop where
  stands : ∀ fp, point.footprint = some fp → Stands s.contacts.com fp
  writes : WritesFor point.footprint s
  progress : Progress s point

/-- An id names one pair of contacts. -/
def NamesPairs (proposals : TxTable MergeProposal) : Prop :=
  ∀ i j p q, proposals.Has i p → proposals.Has j q → p.id = q.id →
    p.contactAId = q.contactAId ∧ p.contactBId = q.contactBId

/-- **The invariant of the database**, at the start of which were the rows of `db`. -/
structure MergeInv (db db' : MergeDb) : Prop where
  law : StrandsNothing db db'
  ids : ∀ i c, db'.contacts.com i = some c → c.id ≠ ""
  distinct : ∀ i j c d, db'.contacts.com i = some c → db'.contacts.com j = some d →
    c.id = d.id → i = j
  pending : ∀ i p, db'.proposals.com i = some p → p.status = .pending →
    Stands db'.contacts.com (.propose p.contactAId p.contactBId) ∧ p.KeepsOne
  names : NamesPairs db'.proposals

/-! ### What a commit does -/

section Commit

variable {fp : Option Footprint} {s : MergeSight} {x : String}

variable {i : ℕ}

/-- A transaction sees the contacts that there are. -/
theorem WritesFor.old_contact (h : WritesFor fp s) {c : Contact}
    (hc : s.contacts.seen i = some c) : ∃ old, s.contacts.com i = some old ∧ old.id = c.id := by
  rcases Sight.seen_cases hc with hown | ⟨-, hcom⟩
  · obtain ⟨k, d, old, -, hold, hid, -⟩ := h.contacts i c hown
    exact ⟨old, hold, hid⟩
  · exact ⟨c, hcom, rfl⟩

theorem WritesFor.seen_contact (h : WritesFor fp s) {c : Contact}
    (hc : s.contacts.com i = some c) : ∃ new, s.contacts.seen i = some new ∧ new.id = c.id := by
  cases hown : s.contacts.own i with
  | none => exact ⟨c, (Sight.seen_of_not hown).trans hc, rfl⟩
  | some new =>
    obtain ⟨k, d, old, -, hold, hid, -⟩ := h.contacts i new hown
    obtain rfl : old = c := Option.some.inj (hold.symm.trans hc)
    exact ⟨new, Sight.seen_of_own hown, hid.symm⟩

theorem WritesFor.isContact (h : WritesFor fp s) (hx : IsContact s.contacts.com x) :
    IsContact s.contacts.seen x := by
  obtain ⟨i, c, hc, hid⟩ := hx
  obtain ⟨new, hnew, hnewid⟩ := h.seen_contact hc
  exact ⟨i, new, hnew, hnewid.trans hid⟩

/-- The only new link is that of the duplicate. -/
theorem WritesFor.linksTo (h : WritesFor fp s) {a b : String}
    (hlink : LinksTo s.contacts.seen a b) :
    LinksTo s.contacts.com a b ∨ fp = some (.merge b a) := by
  obtain ⟨i, c, hc, hid, hinto⟩ := hlink
  rcases Sight.seen_cases hc with hown | ⟨-, hcom⟩
  · obtain ⟨k, d, old, hfp, -, -, ⟨-, hnone⟩ | ⟨hd, hk⟩⟩ := h.contacts i c hown
    · rw [hnone] at hinto
      cases hinto
    · rw [hk, Option.some.injEq] at hinto
      exact .inr (by rw [hfp, ← hd, hid, hinto])
  · exact .inl ⟨i, c, hcom, hid, hinto⟩

theorem WritesFor.mergedAway (h : WritesFor fp s) (hx : MergedAway s.contacts.seen x) :
    MergedAway s.contacts.com x ∨ ∃ k, fp = some (.merge k x) := by
  obtain ⟨b, hlink⟩ := hx
  exact (h.linksTo hlink).imp (fun hold => ⟨b, hold⟩) fun hfp => ⟨b, hfp⟩

/-- A contact that was merged away stays so. -/
theorem WritesFor.mergedAway_seen (h : WritesFor fp s)
    (hstands : ∀ g, fp = some g → Stands s.contacts.com g) (hx : MergedAway s.contacts.com x) :
    MergedAway s.contacts.seen x := by
  obtain ⟨b, i, c, hc, hid, hinto⟩ := hx
  cases hown : s.contacts.own i with
  | none => exact ⟨b, i, c, (Sight.seen_of_not hown).trans hc, hid, hinto⟩
  | some new =>
    obtain ⟨k, d, old, hfp, hold, hnewid, ⟨hk, -⟩ | ⟨-, hk⟩⟩ := h.contacts i new hown
    · -- The keeper was not merged away.
      obtain rfl : old = c := Option.some.inj (hold.symm.trans hc)
      have hkeeper : x = k := hid.symm.trans (hnewid.trans hk)
      exact absurd ⟨b, i, old, hc, hid, hinto⟩ (hkeeper ▸ (hstands _ hfp).2.1.2)
    · obtain rfl : old = c := Option.some.inj (hold.symm.trans hc)
      exact ⟨k, i, new, Sight.seen_of_own hown, hnewid.symm.trans hid, hk⟩

theorem WritesFor.standing (h : WritesFor fp s) (hx : Standing s.contacts.com x)
    (hfp : ∀ k, fp ≠ some (.merge k x)) : Standing s.contacts.seen x := by
  refine ⟨h.isContact hx.1, fun hmerged => ?_⟩
  rcases h.mergedAway hmerged with hold | ⟨k, hk⟩
  · exact hx.2 hold
  · exact hfp k hk

/-- When a merge commits, its duplicate is merged away. -/
theorem Finished.mergedAway (h : Finished fp s) (hw : WritesFor fp s)
    (hstands : ∀ g, fp = some g → Stands s.contacts.com g) {k d : String}
    (hfp : fp = some (.merge k d)) : MergedAway s.contacts.seen d := by
  obtain ⟨i, c, hc, hid⟩ := (hstands _ hfp).2.2
  obtain ⟨new, hown, hinto⟩ := h.duplicate k d hfp i c hc hid
  obtain ⟨c', hc', hid'⟩ := hw.seen_contact hc
  obtain rfl : new = c' := Option.some.inj ((Sight.seen_of_own hown).symm.trans hc')
  exact ⟨k, i, new, hc', hid'.trans hid, hinto⟩

/-- **The links of a merge form no cycle**: nothing leads on from its keeper. -/
theorem acyclic_seen (hw : WritesFor fp s) (hstands : ∀ g, fp = some g → Stands s.contacts.com g)
    (hacyclic : Acyclic (LinksTo s.contacts.com)) : Acyclic (LinksTo s.contacts.seen) := by
  by_cases hmerge : ∃ k d, fp = some (.merge k d)
  · obtain ⟨k, d, hfp⟩ := hmerge
    obtain ⟨hne, hkeeper, -⟩ := hstands _ hfp
    refine acyclic_of_extend (v := d) (· = k) (fun a b hlink => ?_) hacyclic ?_
    · refine (hw.linksTo hlink).imp id fun hab => ?_
      rw [hfp, Option.some.injEq, Footprint.merge.injEq] at hab
      exact ⟨hab.2.symm, hab.1.symm⟩
    · rintro _ rfl hpath
      rcases Relation.ReflTransGen.cases_head hpath with heq | ⟨b, hlink, -⟩
      · exact hne heq
      · exact hkeeper.2 ⟨b, hlink⟩
  · refine hacyclic.mono fun a b hlink => (hw.linksTo hlink).resolve_right fun hfp => ?_
    exact hmerge ⟨b, a, hfp⟩

/-- A row that a transaction leaves behind was carried over. -/
theorem carriedOver_seen (hw : WritesFor fp s)
    (hstands : ∀ g, fp = some g → Stands s.contacts.com g) (hdone : Finished fp s)
    {start old : CrmRow} (hold : s.rows.com i = some old)
    (hcarried : CarriedOver s.contacts.com start old) :
    ∃ row, s.rows.seen i = some row ∧ CarriedOver s.contacts.seen start row := by
  have hgrow : ∀ ref, old.contact ref = start.contact ref ∨
      ∃ x y, start.contact ref = some x ∧ MergedAway s.contacts.seen x ∧
        old.contact ref = some y ∧ IsContact s.contacts.seen y := fun ref =>
    (hcarried.moved ref).imp id fun ⟨x, y, hx, hmerged, hy, hcontact⟩ =>
      ⟨x, y, hx, hw.mergedAway_seen hstands hmerged, hy, hw.isContact hcontact⟩
  cases hown : s.rows.own i with
  | none =>
    have hseen : s.rows.seen i = some old := (Sight.seen_of_not hown).trans hold
    refine ⟨old, hseen, hcarried.rest, hgrow, fun ref x hx hmerged => ?_⟩
    rcases hw.mergedAway hmerged with hbefore | ⟨k, hfp⟩
    · exact hcarried.unmerged ref x hx hbefore
    · exact hdone.rows k x hfp i old ref hseen hx
  | some row =>
    have hseen : s.rows.seen i = some row := Sight.seen_of_own hown
    obtain ⟨k, d, old', hfp, hold', hrest, hcols⟩ := hw.rows i row hown
    obtain rfl : old' = old := Option.some.inj (hold'.symm.trans hold)
    obtain ⟨hne, hkeeper, -⟩ := hstands _ hfp
    refine ⟨row, hseen, hrest.trans hcarried.rest, fun ref => ?_, fun ref x hx hmerged => ?_⟩
    · rcases hcols ref with hsame | ⟨hd, hk⟩
      · exact hsame ▸ hgrow ref
      · have hdup : MergedAway s.contacts.seen d := hdone.mergedAway hw hstands hfp
        rcases hgrow ref with hstart | ⟨x, -, hx, hx', -, -⟩
        · exact .inr ⟨d, k, hstart ▸ hd, hdup, hk, hw.isContact hkeeper.1⟩
        · exact .inr ⟨x, k, hx, hx', hk, hw.isContact hkeeper.1⟩
    · have hstanding : x = k ∨ old'.contact ref = some x :=
        (hcols ref).symm.imp (fun hnew => Option.some.inj (hx.symm.trans hnew.2))
          fun hsame => hsame.symm.trans hx
      rcases hw.mergedAway hmerged with hbefore | ⟨k', hfp'⟩
      · rcases hstanding with rfl | hold
        · exact hkeeper.2 hbefore
        · exact hcarried.unmerged ref x hold hbefore
      · exact hdone.rows k' x hfp' i row ref hseen hx

/-- What a call knows of its contacts stays so, if the one that commits does not overlap. -/
theorem Stands.seen {g : Footprint} (hg : Stands s.contacts.com g) (hw : WritesFor fp s)
    (hapart : ∀ f, fp = some f → ¬ Overlaps f g) : Stands s.contacts.seen g := by
  cases g with
  | merge k d =>
    refine ⟨hg.1, hw.standing hg.2.1 fun k' hfp => hapart _ hfp (.inl rfl), hw.isContact hg.2.2⟩
  | propose a b =>
    exact ⟨hg.1, hw.standing hg.2.1 fun k hfp => hapart _ hfp (.inl rfl),
      hw.standing hg.2.2 fun k hfp => hapart _ hfp (.inr rfl)⟩

end Commit

variable {db db' : MergeDb} {t u : ℕ} {fp : Option Footprint}

/-- **A commit keeps the invariant.** -/
theorem MergeInv.commit (h : MergeInv db db') (hw : WritesFor fp (db'.sight t))
    (hstands : ∀ g, fp = some g → Stands db'.contacts.com g)
    (hdone : Finished fp (db'.sight t)) : MergeInv db (db'.commit t) := by
  have hcontacts : (db'.commit t).contacts.com = (db'.sight t).contacts.seen :=
    db'.contacts.com_commit_eq t
  have hrows : (db'.commit t).rows.com = (db'.sight t).rows.seen := db'.rows.com_commit_eq t
  have hproposals : (db'.commit t).proposals.com = (db'.sight t).proposals.seen :=
    db'.proposals.com_commit_eq t
  refine
    { law := ⟨hcontacts ▸ acyclic_seen hw hstands h.law.acyclic, fun i => ?_⟩
      ids := fun i c hc => ?_
      distinct := fun i j c d hc hd hid => ?_
      pending := fun i p hp hpending => ?_
      names := fun i j p q hp hq => h.names i j p q hp.of_commit hq.of_commit }
  · rw [hcontacts, hrows]
    have hrel := h.law.rows i
    cases hstart : db.rows.com i with
    | none =>
      rw [hstart] at hrel
      cases hold : db'.rows.com i with
      | none =>
        have hnone : (db'.sight t).rows.seen i = none := by
          refine Option.eq_none_iff_forall_ne_some.2 fun row hrow => ?_
          rcases Sight.seen_cases hrow with hown | ⟨-, hcom⟩
          · obtain ⟨k, d, old, -, hcom, -⟩ := hw.rows i row hown
            exact Option.some_ne_none old (hcom.symm.trans hold)
          · exact Option.some_ne_none row (hcom.symm.trans hold)
        rw [hnone]
        exact .none
      | some old =>
        rw [hold] at hrel
        cases hrel
    | some start =>
      rw [hstart] at hrel
      cases hold : db'.rows.com i with
      | none =>
        rw [hold] at hrel
        cases hrel
      | some old =>
        rw [hold] at hrel
        obtain ⟨hcarried⟩ := hrel
        obtain ⟨row, hrow, hafter⟩ := carriedOver_seen hw hstands hdone hold hcarried
        rw [hrow]
        exact .some hafter
  · rw [hcontacts] at hc
    obtain ⟨old, hold, hid⟩ := hw.old_contact hc
    exact hid ▸ h.ids i old hold
  · rw [hcontacts] at hc hd
    obtain ⟨c', hc', hcid⟩ := hw.old_contact hc
    obtain ⟨d', hd', hdid⟩ := hw.old_contact hd
    exact h.distinct i j c' d' hc' hd' (hcid.trans (hid.trans hdid.symm))
  · rw [hproposals] at hp
    rw [hcontacts]
    rcases Sight.seen_cases hp with hown | ⟨-, hcom⟩
    · obtain ⟨hfp, hkeeps⟩ := hw.pending i p hown hpending
      refine ⟨(hstands _ hfp).seen hw fun f hf => ?_, hkeeps⟩
      obtain rfl := Option.some.inj (hfp.symm.trans hf)
      exact id
    · obtain ⟨hpair, hkeeps⟩ := h.pending i p hcom hpending
      refine ⟨hpair.seen hw fun f hf => ?_, hkeeps⟩
      cases f with
      | merge k d =>
        exact fun hover => hdone.proposals k d hf i p hp hpending (hover.imp Eq.symm Eq.symm)
      | propose a b => exact id

theorem MergeDb.sight_commit_of_ne (db : MergeDb) (hu : u ≠ t) :
    (db.commit t).sight u =
      { contacts := ⟨(db.contacts.sight t).seen, db.contacts.own u⟩
        rows := ⟨(db.rows.sight t).seen, db.rows.own u⟩
        proposals := ⟨(db.proposals.sight t).seen, db.proposals.own u⟩ } := by
  rw [MergeDb.sight, MergeDb.commit, TxTable.sight_commit_of_ne _ hu,
    TxTable.sight_commit_of_ne _ hu, TxTable.sight_commit_of_ne _ hu]
  rfl

/-- A commit leaves what others have written. -/
theorem WritesFor.commit (h : WritesFor fp (db.sight u)) (hu : u ≠ t) :
    WritesFor fp ((db.commit t).sight u) := by
  rw [db.sight_commit_of_ne hu]
  refine
    { contacts := fun i c hc => ?_, rows := fun i row hrow => ?_
      ids := fun i p q hp hq => ?_, pending := h.pending }
  · obtain ⟨k, d, old, hfp, hold, hrest⟩ := h.contacts i c hc
    exact ⟨k, d, old, hfp, (TxTable.sight_seen_of_other hc hu).trans hold, hrest⟩
  · obtain ⟨k, d, old, hfp, hold, hrest⟩ := h.rows i row hrow
    exact ⟨k, d, old, hfp, (TxTable.sight_seen_of_other hrow hu).trans hold, hrest⟩
  · exact h.ids i p q hp ((TxTable.sight_seen_of_other hp hu).symm.trans hq)

/-- A commit leaves how far others have come, if it does not overlap with them. -/
theorem Applying.commit {call : ApplyCall} {cur : ApplyStmt} {found : Option (List ℕ)}
    (h : Applying call (db.sight u) cur found) (hw : WritesFor fp (db.sight t)) (hu : u ≠ t)
    (hapart : ∀ f, fp = some f → ¬ Overlaps f (.merge call.keeperId call.duplicateId)) :
    Applying call ((db.commit t).sight u) cur found := by
  rw [db.sight_commit_of_ne hu]
  refine
    { patch := h.patch, rows := fun i row ref hrow href => ?_
      duplicate := fun i c hc hid => ?_, proposals := fun i p hp hpending hinvolves => ?_ }
  · rcases Sight.seen_cases hrow with hown | ⟨hnone, hcom⟩
    · exact h.rows i row ref (Sight.seen_of_own hown) href
    · rcases Sight.seen_cases hcom with hother | ⟨-, hcom⟩
      · obtain ⟨k, d, old, hfp, hold, -, hcols⟩ := hw.rows i row hother
        rcases hcols ref with hsame | ⟨-, hk⟩
        · exact h.rows i old ref ((Sight.seen_of_not (s := db.rows.sight u) hnone).trans hold) (hsame ▸ href)
        · exact absurd (.inr (Option.some.inj (hk.symm.trans href))) (hapart _ hfp)
      · exact h.rows i row ref ((Sight.seen_of_not (s := db.rows.sight u) hnone).trans hcom) href
  · obtain ⟨old, hold, holdid⟩ := hw.old_contact hc
    exact h.duplicate i old hold (holdid.trans hid)
  · rcases Sight.seen_cases hp with hown | ⟨hnone, hcom⟩
    · exact h.proposals i p (Sight.seen_of_own hown) hpending hinvolves
    · rcases Sight.seen_cases hcom with hother | ⟨-, hcom⟩
      · obtain ⟨hfp, -⟩ := hw.pending i p hother hpending
        exact absurd (hinvolves.imp Eq.symm Eq.symm) (hapart _ hfp)
      · have hseen := (Sight.seen_of_not (s := db.proposals.sight u) hnone).trans hcom
        exact h.proposals i p hseen hpending hinvolves

/-- **A commit disturbs no call that it does not overlap.** -/
theorem PointOk.commit {point : MergePoint} (h : PointOk (db.sight u) point)
    (hw : WritesFor fp (db.sight t)) (hnames : NamesPairs db.proposals) (hu : u ≠ t)
    (hapart : ∀ f g, fp = some f → point.footprint = some g → ¬ Overlaps f g) :
    PointOk ((db.commit t).sight u) point := by
  refine ⟨fun g hg => ?_, h.writes.commit hu, ?_⟩
  · rw [db.sight_commit_of_ne hu]
    have hold : Stands (db.sight t).contacts.com g := h.stands g hg
    exact hold.seen hw fun f hf => hapart f g hf hg
  · have hprogress := h.progress
    cases point with
    | proposeUpdate input fails id found =>
      obtain ⟨hkeeps, i, p, hp, hid, hof⟩ := hprogress
      refine ⟨hkeeps, ?_⟩
      rw [db.sight_commit_of_ne hu]
      rcases Sight.seen_cases hp with hown | ⟨hnone, hcom⟩
      · exact ⟨i, p, Sight.seen_of_own hown, hid, hof⟩
      · have hafter : Sight.seen ⟨(db.proposals.sight t).seen, db.proposals.own u⟩ i =
            (db.proposals.sight t).seen i := Sight.seen_of_not hnone
        cases hother : db.proposals.own t i with
        | none =>
          have hseen := (Sight.seen_of_not (s := db.proposals.sight t) hother).trans hcom
          exact ⟨i, p, hafter.trans hseen, hid, hof⟩
        | some q =>
          have hseen := Sight.seen_of_own (s := db.proposals.sight t) hother
          have hqid : q.id = p.id := hw.ids i q p hother hcom
          obtain ⟨ha, hb⟩ := hnames i i q p (.inr ⟨t, hother⟩) (.inl hcom) hqid
          exact ⟨i, q, hafter.trans hseen, hqid.trans hid, ha.trans hof.1, hb.trans hof.2⟩
    | apply call fails stmt found =>
      exact Applying.commit hprogress hw hu fun f hf => hapart f _ hf rfl
    | applyCommit call =>
      exact Applying.commit hprogress hw hu fun f hf => hapart f _ hf rfl
    | propose | proposeApplied | proposePending | proposeInsert | proposeCommit | applyRead
    | applyContacts | dismiss | dismissUpdate | dismissCommit => exact hprogress

/-! ### What a transaction writes -/

section Update

variable {s : MergeSight} {contacts' : Sight Contact} {rows' : Sight CrmRow}
  {proposals' : Sight MergeProposal} {i : ℕ}

/-- A transaction that has written nothing that counts may be about any contacts. -/
theorem WritesFor.of_none (h : WritesFor none s) (fp : Option Footprint) : WritesFor fp s where
  contacts i c hc := by
    obtain ⟨k, d, old, hfp, -⟩ := h.contacts i c hc
    cases hfp
  rows i row hrow := by
    obtain ⟨k, d, old, hfp, -⟩ := h.rows i row hrow
    cases hfp
  ids := h.ids
  pending i p hp hpending := by
    obtain ⟨hfp, -⟩ := h.pending i p hp hpending
    cases hfp

theorem WritesFor.update_contacts {p : Contact → Bool} {f : Contact → Contact} {k d : String}
    (h : WritesFor (some (.merge k d)) s) (hup : s.contacts.Updated contacts' i p f)
    (hf : ∀ c, s.contacts.seen i = some c → p c = true → (f c).id = c.id ∧
      ((f c).id = k ∧ (f c).mergedInto = none ∨ (f c).id = d ∧ (f c).mergedInto = some k)) :
    WritesFor (some (.merge k d)) { s with contacts := contacts' } := by
  refine { contacts := fun j c hc => ?_, rows := h.rows, ids := h.ids, pending := h.pending }
  rcases hup.own_cases hc with hold | ⟨rfl, v, hv, hp, rfl⟩
  · obtain ⟨k', d', old, hfp, hcom, hrest⟩ := h.contacts j c hold
    exact ⟨k', d', old, hfp, hup.com ▸ hcom, hrest⟩
  · obtain ⟨hid, hkind⟩ := hf v hv hp
    obtain ⟨old, hcom, hold⟩ := h.old_contact hv
    exact ⟨k, d, old, rfl, hup.com ▸ hcom, hold.trans hid.symm, hkind⟩

variable {ref : ContactRef}

theorem rest_setContact {row : CrmRow} {x : String} (k : String)
    (h : row.contact ref = some x) : (row.setContact ref k).rest = row.rest := by
  cases ref <;> cases row <;> simp only [CrmRow.contact] at h <;>
    first
    | rfl
    | cases h
    | (split at h
       · rename_i htype
         simp [CrmRow.setContact, CrmRow.rest, htype]
       · cases h)

theorem WritesFor.update_rows {k d : String} (h : WritesFor (some (.merge k d)) s)
    (hup : s.rows.Updated rows' i (·.contact ref = some d) (·.setContact ref k)) :
    WritesFor (some (.merge k d)) { s with rows := rows' } := by
  refine { contacts := h.contacts, rows := fun j row hrow => ?_, ids := h.ids, pending := h.pending }
  rcases hup.own_cases hrow with hold | ⟨rfl, v, hv, hp, rfl⟩
  · obtain ⟨k', d', old, hfp, hcom, hrest⟩ := h.rows j row hold
    exact ⟨k', d', old, hfp, hup.com ▸ hcom, hrest⟩
  · have href : v.contact ref = some d := of_decide_eq_true hp
    rcases Sight.seen_cases hv with hown | ⟨-, hcom⟩
    · obtain ⟨k', d', old, hfp, hcom, hrest, hcols⟩ := h.rows j v hown
      rw [Option.some.injEq, Footprint.merge.injEq] at hfp
      obtain ⟨rfl, rfl⟩ := hfp
      refine ⟨k, d, old, rfl, hup.com ▸ hcom, (rest_setContact k href).trans hrest, fun other => ?_⟩
      by_cases hother : other = ref
      · subst hother
        refine .inr ⟨?_, contact_setContact_self href⟩
        rcases hcols other with hsame | ⟨hd, -⟩
        · exact hsame.symm.trans href
        · exact hd
      · rw [contact_setContact_of_ne hother]
        exact hcols other
    · refine ⟨k, d, v, rfl, hup.com ▸ hcom, rest_setContact k href, fun other => ?_⟩
      by_cases hother : other = ref
      · subst hother
        exact .inr ⟨href, contact_setContact_self href⟩
      · exact .inl (contact_setContact_of_ne hother k v)

theorem WritesFor.update_proposals {p : MergeProposal → Bool} {f : MergeProposal → MergeProposal}
    (h : WritesFor fp s) (hup : s.proposals.Updated proposals' i p f) (hid : ∀ v, (f v).id = v.id)
    (hf : ∀ v, s.proposals.seen i = some v → p v = true → (f v).status = .pending →
      fp = some (.propose (f v).contactAId (f v).contactBId) ∧ (f v).KeepsOne) :
    WritesFor fp { s with proposals := proposals' } := by
  refine
    { contacts := h.contacts, rows := h.rows, ids := fun j q r hq hr => ?_
      pending := fun j q hq hpending => ?_ }
  · have hcom : s.proposals.com j = some r := hup.com ▸ hr
    rcases hup.own_cases hq with hold | ⟨rfl, v, hv, -, rfl⟩
    · exact h.ids j q r hold hcom
    · rw [hid]
      rcases Sight.seen_cases hv with hown | ⟨-, hv⟩
      · exact h.ids j v r hown hcom
      · exact congrArg MergeProposal.id (Option.some.inj (hv.symm.trans hcom))
  · rcases hup.own_cases hq with hold | ⟨rfl, v, hv, hp, rfl⟩
    · exact h.pending j q hold hpending
    · exact hf v hv hp hpending

end Update

end Munin
