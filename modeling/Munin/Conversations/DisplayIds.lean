import Mathlib.Algebra.Group.Int.Defs
import Munin.Foundations.Machine
import Munin.Foundations.ReadCommitted
import Mathlib.Data.Int.Notation
import Mathlib.Logic.Function.Basic

/-!
# Conversation numbers

A conversation gets the next number of its organisation. `conv_next_display_id` takes an advisory
lock that its transaction keeps until it ends, and then, in a statement of its own, reads the
highest number; the insertion is the caller's next statement. Transactions insert any number of
conversations, delete some, and commit or roll back.

* **`NumberingState.step`** — the statements of any number of transactions, under read committed
  isolation, with the unique index on organisation and number.
* **`Numbered`** — the invariant: a conversation that is not committed was inserted by the holder of
  its organisation's lock, and a number that is about to be inserted is above all that the
  transaction sees.
* **`display_ids_unique`** — no two committed conversations of an organisation have one number, and
  no insertion fails on the index.
-/

namespace Munin

open Foundations

/-- A conversation of the table; the deletion of a row leaves it behind, out of the index. -/
structure NumberedRow where
  orgId : String
  displayId : ℤ
  deleted : Bool := false

/-- The key of `conv_conversations_display_uq`. -/
def NumberedRow.key (v : NumberedRow) : Option (String × ℤ) :=
  if v.deleted then none else some (v.orgId, v.displayId)

/-- The functions that insert a conversation. -/
inductive NumberCaller where
  | insertConversationWithRetry
  | createConversation

/-- How often a caller tries. -/
def NumberCaller.attempts : NumberCaller → ℕ
  | .insertConversationWithRetry => 5
  | .createConversation => 1

/-- An insertion under way. -/
structure NumberCall where
  caller : NumberCaller
  orgId : String
  attempt : ℕ := 0

/-- Where an insertion stands. -/
inductive NumberPoint where
  /-- `pg_advisory_xact_lock`. -/
  | locking (call : NumberCall)
  /-- The highest number is read. -/
  | numbering (call : NumberCall)
  | inserting (call : NumberCall) (displayId : ℤ)
  /-- A statement has failed, and the transaction can only be rolled back. -/
  | failed

/-- The table, the advisory locks, the insertion that each transaction is in, and how many
insertions have failed on the unique index. -/
structure NumberingState where
  table : TxTable NumberedRow := []
  locks : ℤ → Option ℕ := fun _ => none
  calls : ℕ → Option NumberPoint := fun _ => none
  failures : ℕ := 0

/-- A statement of a transaction, or its end. -/
inductive NumberMove where
  | insert (t : ℕ) (caller : NumberCaller) (orgId : String)
  | exec (t : ℕ)
  /-- A conversation that the transaction sees is deleted. -/
  | delete (t i : ℕ)
  | commit (t : ℕ)
  | rollback (t : ℕ)

/-- The largest `integer`. -/
def int4Max : ℤ := 2 ^ 31 - 1

/-- The numbers of an organisation that a transaction reads. -/
def numbersSeen (T : TxTable NumberedRow) (t : ℕ) (orgId : String) : List ℤ :=
  (T.view t).filterMap fun v => if v.orgId = orgId ∧ v.deleted = false then some v.displayId else none

/-- `COALESCE(MAX(display_id), 0) + 1`. -/
def nextDisplayId (T : TxTable NumberedRow) (t : ℕ) (orgId : String) : ℤ :=
  (numbersSeen T t orgId).max?.getD 0 + 1

namespace NumberingState

variable (s : NumberingState)

/-- The transaction goes on at another point. -/
def goto (t : ℕ) (p : Option NumberPoint) : NumberingState :=
  { s with calls := Function.update s.calls t p }

/-- The locks of a transaction are given back as it ends. -/
def unlock (t : ℕ) : ℤ → Option ℕ :=
  fun k => if s.locks k = some t then none else s.locks k

/-- The next statement of an insertion; `hashtext` is what the locks are named by. -/
def exec (hashtext : String → ℤ) (t : ℕ) : NumberPoint → Option NumberingState
  | .locking call =>
    if ∀ o ∈ s.locks (hashtext call.orgId), o = t then
      some { s.goto t (some (.numbering call)) with
        locks := Function.update s.locks (hashtext call.orgId) (some t) }
    else none
  | .numbering call =>
    let next := nextDisplayId s.table t call.orgId
    some (s.goto t (some
      (if next + call.attempt ≤ int4Max then .inserting call (next + call.attempt) else .failed)))
  | .inserting call displayId =>
    (s.table.insert NumberedRow.key t ⟨call.orgId, displayId, false⟩).map fun (table, done) =>
      if done then { s.goto t none with table }
      else
        -- the next attempt, if the caller makes one
        let p := if call.attempt + 1 < call.caller.attempts then
          .locking { call with attempt := call.attempt + 1 } else .failed
        { s.goto t (some p) with failures := s.failures + 1 }
  | .failed => none

/-- One move; `none` while it waits, or where it is out of turn. -/
def step (hashtext : String → ℤ) : NumberMove → Option NumberingState
  | .insert t caller orgId =>
    if s.calls t = none then some (s.goto t (some (.locking { caller, orgId }))) else none
  | .exec t => (s.calls t).bind (s.exec hashtext t)
  | .delete t i =>
    if s.calls t = none then
      (s.table.update t i ({ · with deleted := true })).map fun table => { s with table }
    else none
  | .commit t =>
    if s.calls t = none then
      some { s with table := s.table.commit t, locks := s.unlock t }
    else none
  | .rollback t => some { s.goto t none with table := s.table.abort t, locks := s.unlock t }

/-- The table as it was before the transactions: all of it committed, and its numbers unique. -/
structure Started : Prop where
  committed : ∀ r ∈ s.table, r.pending = none
  unique : TxTable.Unique NumberedRow.key s.table
  calls : s.calls = fun _ => none
  failures : s.failures = 0

end NumberingState

/-- Any number of transactions. -/
def numbering (hashtext : String → ℤ) : Machine NumberingState NumberMove :=
  ⟨fun s => s.step hashtext⟩

/-! ### The invariant -/

/-- What holds where a transaction stands: it has its organisation's lock from the lock statement
on, and the number that it is about to insert is above all that it sees. -/
def NumberPoint.Ok (hashtext : String → ℤ) (T : TxTable NumberedRow) (locks : ℤ → Option ℕ)
    (t : ℕ) : NumberPoint → Prop
  | .locking _ | .failed => True
  | .numbering call => locks (hashtext call.orgId) = some t
  | .inserting call displayId => locks (hashtext call.orgId) = some t ∧
    ∀ r ∈ T, ∀ v, r.seenBy t = some v → v.deleted = false → v.orgId = call.orgId →
      v.displayId < displayId

/-- **The invariant.** -/
structure Numbered (hashtext : String → ℤ) (s : NumberingState) : Prop where
  unique : TxTable.Unique NumberedRow.key s.table
  /-- A conversation that is not committed was inserted by the holder of the lock. -/
  inserted : ∀ r ∈ s.table, ∀ o v, r.committed = none → r.pending = some (o, v) →
    s.locks (hashtext v.orgId) = some o
  /-- What is committed is only ever deleted. -/
  deleted : ∀ r ∈ s.table, ∀ c o v, r.committed = some c → r.pending = some (o, v) →
    v.deleted = true
  point : ∀ t p, s.calls t = some p → p.Ok hashtext s.table s.locks t
  failures : s.failures = 0

section Steps

variable {hashtext : String → ℤ} {s s' : NumberingState} {t : ℕ}

variable {v : NumberedRow} {locks' : ℤ → Option ℕ} {p : NumberPoint}

theorem NumberedRow.key_eq_some {orgId : String} {n : ℤ}
    (h : v.key = some (orgId, n)) : v.deleted = false ∧ v.orgId = orgId ∧ v.displayId = n := by
  unfold NumberedRow.key at h
  split at h
  · cases h
  · rename_i hlive
    obtain ⟨horg, hnum⟩ := Prod.mk.inj (Option.some.inj h)
    exact ⟨Bool.eq_false_iff.2 hlive, horg, hnum⟩

theorem NumberingState.Started.numbered (h : s.Started) : Numbered hashtext s where
  unique := h.unique
  inserted r hr o v _ hp := by
    rw [h.committed r hr] at hp
    cases hp
  deleted r hr c o v _ hp := by
    rw [h.committed r hr] at hp
    cases hp
  point t p hp := by
    rw [h.calls] at hp
    cases hp
  failures := h.failures

variable {T T' : TxTable NumberedRow} {r : VersionedRow NumberedRow} {u : ℕ} {call : NumberCall}

/-- The number after the highest is above every number that is seen. -/
theorem lt_nextDisplayId {orgId : String}
    (hr : r ∈ T) (hseen : r.seenBy t = some v) (hlive : v.deleted = false)
    (horg : v.orgId = orgId) : v.displayId < nextDisplayId T t orgId := by
  have hview : v ∈ T.view t := List.mem_filterMap.2 ⟨r, hr, hseen⟩
  have hmem : v.displayId ∈ numbersSeen T t orgId :=
    List.mem_filterMap.2 ⟨v, hview, if_pos ⟨horg, hlive⟩⟩
  obtain ⟨m, hm⟩ : ∃ m, (numbersSeen T t orgId).max? = some m := by
    refine Option.ne_none_iff_exists'.1 fun hnone => ?_
    rw [List.max?_eq_none_iff] at hnone
    rw [hnone] at hmem
    cases hmem
  have hle : v.displayId ≤ m := (List.max?_eq_some_iff.1 hm).2 _ hmem
  unfold nextDisplayId
  rw [hm, Option.getD_some]
  omega

/-- A row that the transaction has not written is seen as it is committed. -/
theorem seenBy_of_other (h : ∀ o v, r.pending = some (o, v) → o ≠ u) : r.seenBy u = r.committed :=
  VersionedRow.seenBy_of_not fun v hv => h u v hv rfl

/-- Points stay as they should be when locks are only added, and what a transaction sees of an
organisation whose lock it has only shrinks. -/
theorem NumberPoint.Ok.mono {locks : ℤ → Option ℕ} (h : p.Ok hashtext T locks u)
    (hlocks : ∀ k, locks k = some u → locks' k = some u)
    (hseen : ∀ r' ∈ T', ∀ v, r'.seenBy u = some v → v.deleted = false →
      locks (hashtext v.orgId) = some u → ∃ r ∈ T, r.seenBy u = some v) :
    p.Ok hashtext T' locks' u := by
  cases p with
  | locking call => trivial
  | failed => trivial
  | numbering call => exact hlocks _ h
  | inserting call displayId =>
    refine ⟨hlocks _ h.1, fun r' hr' v hv hlive horg => ?_⟩
    obtain ⟨r, hr, hold⟩ := hseen r' hr' v hv hlive (by rw [horg]; exact h.1)
    exact h.2 r hr v hold hlive horg

/-- The points of all transactions, after one of them has moved on. -/
theorem point_update {locks : ℤ → Option ℕ}
    {calls : ℕ → Option NumberPoint} {q : Option NumberPoint}
    (hcalls : ∀ u p, calls u = some p → p.Ok hashtext T locks u)
    (hq : ∀ p, q = some p → p.Ok hashtext T' locks' t)
    (hother : ∀ u, u ≠ t → ∀ p : NumberPoint, p.Ok hashtext T locks u → p.Ok hashtext T' locks' u) :
    ∀ u p, Function.update calls t q u = some p → p.Ok hashtext T' locks' u := by
  intro u p hp
  by_cases hu : u = t
  · subst hu
    rw [Function.update_self] at hp
    exact hq p hp
  · rw [Function.update_of_ne hu] at hp
    exact hother u hu p (hcalls u p hp)

section Keeps

variable (h : Numbered hashtext s)

include h

/-- The lock is taken. -/
theorem Numbered.lock (hfree : ∀ o ∈ s.locks (hashtext call.orgId), o = t) :
    Numbered hashtext { s.goto t (some (.numbering call)) with
      locks := Function.update s.locks (hashtext call.orgId) (some t) } := by
  have hkeeps : ∀ k u, s.locks k = some u →
      Function.update s.locks (hashtext call.orgId) (some t) k = some u := by
    intro k u hk
    by_cases heq : k = hashtext call.orgId
    · subst heq
      rw [Function.update_self, hfree u hk]
    · rwa [Function.update_of_ne heq]
  refine ⟨h.unique, fun r hr o v hc hp => hkeeps _ _ (h.inserted r hr o v hc hp), h.deleted, ?_,
    h.failures⟩
  refine point_update h.point ?_ fun u _ p hp => hp.mono (fun k => hkeeps k u) fun r hr v hv _ _ =>
    ⟨r, hr, hv⟩
  rintro _ ⟨⟩
  exact Function.update_self _ _ _

/-- The highest number is read. -/
theorem Numbered.number (hpoint : s.calls t = some (.numbering call)) (hp : p = .failed ∨
      p = .inserting call (nextDisplayId s.table t call.orgId + call.attempt)) :
    Numbered hashtext (s.goto t (some p)) := by
  refine ⟨h.unique, h.inserted, h.deleted, ?_, h.failures⟩
  refine point_update h.point ?_ fun u _ q hq => hq
  rintro _ ⟨⟩
  rcases hp with rfl | rfl
  · trivial
  · refine ⟨h.point t _ hpoint, fun r hr v hv hlive horg => ?_⟩
    have hlt : v.displayId < nextDisplayId s.table t call.orgId :=
      lt_nextDisplayId hr hv hlive horg
    omega

/-- **No insertion fails**: no row that the transaction sees has the number. -/
theorem Numbered.insert_done {displayId : ℤ}
    (hpoint : s.calls t = some (.inserting call displayId)) {done : Bool}
    (hinsert : s.table.insert NumberedRow.key t ⟨call.orgId, displayId, false⟩ = some (T', done)) :
    done = true ∧ T' = s.table ++ [⟨none, some (t, ⟨call.orgId, displayId, false⟩)⟩] := by
  rcases TxTable.insert_eq_some hinsert with ⟨-, -, k, hk, r, hr, hseen⟩ | ⟨hdone, hT, -⟩
  · obtain rfl : (call.orgId, displayId) = k := Option.some.inj hk
    obtain ⟨v, hv, hkey⟩ := Option.bind_eq_some_iff.1 hseen
    obtain ⟨hlive, horg, hnum⟩ := NumberedRow.key_eq_some hkey
    have hlt := (h.point t _ hpoint).2 r hr v hv hlive horg
    omega
  · exact ⟨hdone, hT⟩

/-- The conversation is inserted. -/
theorem Numbered.insert {displayId : ℤ} (hpoint : s.calls t = some (.inserting call displayId))
    (hinsert : s.table.insert NumberedRow.key t ⟨call.orgId, displayId, false⟩ = some (T', true)) :
    Numbered hashtext { s.goto t none with table := T' } := by
  have hunique := h.unique.insert hinsert
  obtain ⟨-, rfl⟩ := h.insert_done hpoint hinsert
  have hlock : s.locks (hashtext call.orgId) = some t := (h.point t _ hpoint).1
  refine ⟨hunique, ?_, ?_, ?_, h.failures⟩
  · intro r hr o v hc hp
    rcases List.mem_append.1 hr with hold | hnew
    · exact h.inserted r hold o v hc hp
    · obtain rfl := List.mem_singleton.1 hnew
      cases hp
      exact hlock
  · intro r hr c o v hc hp
    rcases List.mem_append.1 hr with hold | hnew
    · exact h.deleted r hold c o v hc hp
    · obtain rfl := List.mem_singleton.1 hnew
      cases hc
  · refine point_update h.point (fun p hp => by cases hp) fun u hu p hp =>
      hp.mono (fun _ hk => hk) fun r hr v hv _ _ => ?_
    rcases List.mem_append.1 hr with hold | hnew
    · exact ⟨r, hold, hv⟩
    · obtain rfl := List.mem_singleton.1 hnew
      rw [seenBy_of_other fun o w hw => by
        cases hw
        exact Ne.symm hu] at hv
      cases hv

/-- A conversation is deleted. -/
theorem Numbered.delete (hidle : s.calls t = none) {i : ℕ}
    (hupdate : s.table.update t i ({ · with deleted := true }) = some T') :
    Numbered hashtext { s with table := T' } := by
  have hunique := h.unique.update (fun v k hk => by cases hk) hupdate
  obtain ⟨r, v, hr, hseen, hown, rfl⟩ := TxTable.update_eq_some hupdate
  have hmem := List.mem_of_getElem? hr
  refine ⟨hunique, ?_, ?_, ?_, h.failures⟩
  · intro q hq o w hc hp
    rcases List.mem_or_eq_of_mem_set hq with hold | rfl
    · exact h.inserted q hold o w hc hp
    · cases hp
      rcases r.writes_or_not t with ⟨v', hv'⟩ | hnot
      · obtain rfl : v' = v := by
          rw [VersionedRow.seenBy_of_pending hv'] at hseen
          exact Option.some.inj hseen
        exact h.inserted r hmem t v' hc hv'
      · rw [VersionedRow.seenBy_of_not hnot] at hseen
        exact absurd (hseen.symm.trans hc) (Option.some_ne_none v)
  · intro q hq c o w hc hp
    rcases List.mem_or_eq_of_mem_set hq with hold | rfl
    · exact h.deleted q hold c o w hc hp
    · cases hp
      rfl
  · intro u p hp
    have hu : u ≠ t := by
      rintro rfl
      exact absurd (hp.symm.trans hidle) (Option.some_ne_none p)
    refine (h.point u p hp).mono (fun _ hk => hk) fun q hq w hw _ _ => ?_
    rcases List.mem_or_eq_of_mem_set hq with hold | rfl
    · exact ⟨q, hold, hw⟩
    · refine ⟨r, hmem, ?_⟩
      rw [seenBy_of_other fun o x hx => by rw [hown o x hx]; exact Ne.symm hu]
      rwa [seenBy_of_other fun o x hx => by
        cases hx
        exact Ne.symm hu] at hw

omit h in
/-- The locks of the other transactions stay as one ends. -/
theorem unlock_of_ne {k : ℤ} (hu : u ≠ t) (h : s.locks k = some u) : s.unlock t k = some u := by
  unfold NumberingState.unlock
  rw [h, if_neg fun heq => hu (Option.some.inj heq)]

/-- A transaction commits. What it inserted belongs to organisations whose locks no other
transaction has, so none that is about to insert sees more of its own. -/
theorem Numbered.commit (hidle : s.calls t = none) :
    Numbered hashtext { s with table := s.table.commit t, locks := s.unlock t } := by
  have hpending : ∀ q ∈ s.table.commit t, ∀ o w, q.pending = some (o, w) →
      o ≠ t ∧ q ∈ s.table := by
    intro q hq o w hp
    obtain ⟨r, hr, rfl⟩ := List.mem_map.1 hq
    obtain ⟨ho, hsame⟩ := (r.ended_commit t).of_pending hp
    exact ⟨ho, hsame.symm ▸ hr⟩
  refine ⟨h.unique.commit t, ?_, ?_, ?_, h.failures⟩
  · intro q hq o w hc hp
    obtain ⟨ho, hmem⟩ := hpending q hq o w hp
    exact unlock_of_ne ho (h.inserted q hmem o w hc hp)
  · intro q hq c o w hc hp
    exact h.deleted q (hpending q hq o w hp).2 c o w hc hp
  · intro u p hp
    have hu : u ≠ t := by
      rintro rfl
      exact absurd (hp.symm.trans hidle) (Option.some_ne_none p)
    refine (h.point u p hp).mono (fun _ => unlock_of_ne hu) fun q hq w hw hlive hlock => ?_
    obtain ⟨r, hr, rfl⟩ := List.mem_map.1 hq
    rcases r.writes_or_not t with ⟨v, hv⟩ | hnot
    · rw [VersionedRow.commit_of_pending hv, seenBy_of_other fun o x hx => by cases hx] at hw
      obtain rfl : v = w := Option.some.inj hw
      cases hc : r.committed with
      | none => exact absurd (Option.some.inj (hlock.symm.trans (h.inserted r hr t v hc hv))) hu
      | some c => exact absurd (hlive.symm.trans (h.deleted r hr c t v hc hv)) (by decide)
    · rw [VersionedRow.commit_of_not hnot] at hw
      exact ⟨r, hr, hw⟩

/-- A transaction is rolled back. -/
theorem Numbered.rollback (t : ℕ) :
    Numbered hashtext { s.goto t none with table := s.table.abort t, locks := s.unlock t } := by
  have hpending : ∀ q ∈ s.table.abort t, ∀ o w, q.pending = some (o, w) →
      o ≠ t ∧ q ∈ s.table := by
    intro q hq o w hp
    obtain ⟨r, hr, rfl⟩ := List.mem_map.1 hq
    obtain ⟨ho, hsame⟩ := (r.ended_abort t).of_pending hp
    exact ⟨ho, hsame.symm ▸ hr⟩
  refine ⟨h.unique.abort t, ?_, ?_, ?_, h.failures⟩
  · intro q hq o w hc hp
    obtain ⟨ho, hmem⟩ := hpending q hq o w hp
    exact unlock_of_ne ho (h.inserted q hmem o w hc hp)
  · intro q hq c o w hc hp
    exact h.deleted q (hpending q hq o w hp).2 c o w hc hp
  · refine point_update h.point (fun p hp => by cases hp) fun u hu p hp =>
      hp.mono (fun _ => unlock_of_ne hu) fun q hq w hw _ _ => ?_
    obtain ⟨r, hr, rfl⟩ := List.mem_map.1 hq
    refine ⟨r, hr, ?_⟩
    rcases r.writes_or_not t with ⟨v, hv⟩ | hnot
    · rw [VersionedRow.abort_of_pending hv, seenBy_of_other fun o x hx => by cases hx] at hw
      rwa [seenBy_of_other fun o x hx => by
        rw [hv] at hx
        cases hx
        exact Ne.symm hu]
    · rwa [VersionedRow.abort_of_not hnot] at hw

/-- **The step lemma.** -/
theorem step_numbered {move : NumberMove}
    (hstep : s.step hashtext move = some s') : Numbered hashtext s' := by
  cases move with
  | insert t caller orgId =>
    obtain ⟨-, hset⟩ := Option.ite_none_right_eq_some.1 hstep
    obtain rfl := Option.some.inj hset
    refine ⟨h.unique, h.inserted, h.deleted, ?_, h.failures⟩
    refine point_update h.point ?_ fun u _ p hp => hp
    rintro _ ⟨⟩
    trivial
  | exec t =>
    obtain ⟨p, hp, hexec⟩ := Option.bind_eq_some_iff.1 hstep
    cases p with
    | locking call =>
      obtain ⟨hfree, hset⟩ := Option.ite_none_right_eq_some.1 hexec
      obtain rfl := Option.some.inj hset
      exact h.lock hfree
    | numbering call =>
      obtain rfl := Option.some.inj hexec
      refine h.number hp ?_
      split
      · exact .inr rfl
      · exact .inl rfl
    | inserting call displayId =>
      obtain ⟨⟨T', done⟩, hinsert, rfl⟩ := Option.map_eq_some_iff.1 hexec
      obtain ⟨rfl, -⟩ := h.insert_done hp hinsert
      exact h.insert hp hinsert
    | failed => cases hexec
  | delete t i =>
    obtain ⟨hidle, hset⟩ := Option.ite_none_right_eq_some.1 hstep
    obtain ⟨T', hupdate, rfl⟩ := Option.map_eq_some_iff.1 hset
    exact h.delete hidle hupdate
  | commit t =>
    obtain ⟨hidle, hset⟩ := Option.ite_none_right_eq_some.1 hstep
    obtain rfl := Option.some.inj hset
    exact h.commit hidle
  | rollback t =>
    obtain rfl := Option.some.inj hstep
    exact h.rollback t

end Keeps

/-- **Numbers are unique, and allocation does not fail**: in every state of every interleaving, the
numbers of the committed conversations are distinct, organisation by organisation, and no insertion
has failed on the unique index. -/
theorem display_ids_unique (h : (numbering hashtext).Reachable NumberingState.Started s) :
    ((s.table.filterMap (·.committed)).filterMap NumberedRow.key).Nodup ∧ s.failures = 0 := by
  have hnumbered : Numbered hashtext s := by
    refine Machine.Reaches.invariant ?_ ?_ h
    · intro s hs
      exact hs.numbered
    · intro s s' move _ hs _ hstep
      exact step_numbered hs hstep
  exact ⟨TxTable.committed_keys_nodup hnumbered.unique, hnumbered.failures⟩

end Steps

/-- Two transactions allocate at once. The first one inserts twice and deletes what it inserted
first; the second one waits for it, and numbers after it. -/
def concurrentAllocations : List NumberMove :=
  [.insert 1 .createConversation "org_1", .insert 2 .insertConversationWithRetry "org_1",
    .exec 1, .exec 1, .exec 1, .insert 1 .createConversation "org_1", .exec 1, .exec 1, .exec 1,
    .delete 1 0, .commit 1, .exec 2, .exec 2, .exec 2, .commit 2]

theorem display_ids_unique_sample :
    ∃ s, (numbering fun _ => 0).run {} concurrentAllocations = some s ∧
      (s.table.filterMap (·.committed)).filterMap NumberedRow.key = [("org_1", 2), ("org_1", 3)] ∧
      ((s.table.filterMap (·.committed)).filterMap NumberedRow.key).Nodup ∧ s.failures = 0 := by
  have hstart : ({} : NumberingState).Started :=
    ⟨by simp, List.Pairwise.nil, rfl, rfl⟩
  have hrun : ((numbering fun _ => 0).run {} concurrentAllocations).map (fun s =>
      (s.table.filterMap (·.committed)).filterMap NumberedRow.key) =
      some [("org_1", 2), ("org_1", 3)] := by decide +kernel
  obtain ⟨s, hs, hkeys⟩ := Option.map_eq_some_iff.1 hrun
  exact ⟨s, hs, hkeys, display_ids_unique (Machine.reachable_of_run hstart hs)⟩

end Munin
