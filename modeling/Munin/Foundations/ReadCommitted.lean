import Mathlib.Data.List.Basic
import Mathlib.Data.List.Nodup
import Mathlib.Data.Nat.Notation
import Mathlib.Logic.Basic

/-!
# A table under read committed isolation, with a unique index

Transactions write rows and see, in each of their statements, what other transactions have
committed and what they themselves have written. A row that a transaction wrote is locked until it
ends.

* **`VersionedRow`, `TxTable`** — rows with their committed value and the write of at most one
  transaction that has not ended; `view` is what a statement of a transaction reads.
* **`insert`** — with a unique index that covers the values that have a key: it waits for a
  transaction whose end decides, does nothing if a row that it sees has the key, and else inserts.
* **`Unique`** — the invariant of the index: two values with one key never count at once.
* **`keys_nodup`** — so no statement of any transaction reads a key twice.
-/

namespace Foundations

/-- A row: what is committed of it, and what a transaction has written since. -/
structure VersionedRow (α : Type*) where
  /-- `none` until the insertion is committed. -/
  committed : Option α
  pending : Option (ℕ × α) := none

namespace VersionedRow

variable {α : Type*} (r : VersionedRow α)

/-- What a transaction reads of the row. -/
def seenBy (t : ℕ) : Option α :=
  match r.pending with
  | some (o, v) => if o = t then some v else r.committed
  | none => r.committed

/-- The values that the row has or may come to have by an end of its transaction. -/
def values : List α :=
  r.committed.toList ++ (r.pending.map (·.2)).toList

/-- The write of the transaction, made good. -/
def commit (t : ℕ) : VersionedRow α :=
  match r.pending with
  | some (o, v) => if o = t then ⟨some v, none⟩ else r
  | none => r

/-- The write of the transaction, taken back. -/
def abort (t : ℕ) : VersionedRow α :=
  match r.pending with
  | some (o, _) => if o = t then ⟨r.committed, none⟩ else r
  | none => r

variable {r}

variable {v : α} {t : ℕ}

theorem mem_values : v ∈ r.values ↔ r.committed = some v ∨ ∃ o, r.pending = some (o, v) := by
  unfold values
  rw [List.mem_append, Option.mem_toList, Option.mem_toList, Option.map_eq_some_iff]
  refine or_congr_right ⟨?_, ?_⟩
  · rintro ⟨⟨o, w⟩, hp, rfl⟩
    exact ⟨o, hp⟩
  · rintro ⟨o, hp⟩
    exact ⟨(o, v), hp, rfl⟩

theorem mem_values_of_seenBy (h : r.seenBy t = some v) : v ∈ r.values := by
  rw [mem_values]
  unfold seenBy at h
  split at h
  · rename_i o w hpending
    split at h
    · exact .inr ⟨o, by rw [hpending, Option.some.inj h]⟩
    · exact .inl h
  · exact .inl h

/-- Either the row's write is the transaction's, or it has none or another one's. -/
theorem writes_or_not (r : VersionedRow α) (t : ℕ) :
    (∃ v, r.pending = some (t, v)) ∨ ∀ v, r.pending ≠ some (t, v) := by
  by_cases h : ∃ v, r.pending = some (t, v)
  · exact .inl h
  · exact .inr fun v hv => h ⟨v, hv⟩

/-- A transaction sees its own write. -/
theorem seenBy_of_pending (h : r.pending = some (t, v)) : r.seenBy t = some v := by
  simp [seenBy, h]

/-- Else a row is seen as it is committed. -/
theorem seenBy_of_not (h : ∀ v, r.pending ≠ some (t, v)) : r.seenBy t = r.committed := by
  unfold seenBy
  split
  · rename_i o v hp
    refine if_neg fun ho => h v ?_
    rw [hp, ho]
  · rfl

theorem commit_of_pending (h : r.pending = some (t, v)) : r.commit t = ⟨some v, none⟩ := by
  simp [commit, h]

theorem commit_of_not (h : ∀ v, r.pending ≠ some (t, v)) : r.commit t = r := by
  unfold commit
  split
  · rename_i o v hp
    refine if_neg fun ho => h v ?_
    rw [hp, ho]
  · rfl

theorem abort_of_pending (h : r.pending = some (t, v)) : r.abort t = ⟨r.committed, none⟩ := by
  simp [abort, h]

theorem abort_of_not (h : ∀ v, r.pending ≠ some (t, v)) : r.abort t = r := by
  unfold abort
  split
  · rename_i o v hp
    refine if_neg fun ho => h v ?_
    rw [hp, ho]
  · rfl

/-- What the end of a transaction does to a row: nothing is pending on it any more, or it was not
the transaction's and stays. -/
def Ended (t : ℕ) (r r' : VersionedRow α) : Prop :=
  r'.pending = none ∨ (r' = r ∧ ∀ v, r.pending ≠ some (t, v))

theorem ended_commit (r : VersionedRow α) (t : ℕ) : Ended t r (r.commit t) := by
  rcases r.writes_or_not t with ⟨v, hv⟩ | hnot
  · exact .inl (by rw [commit_of_pending hv])
  · exact .inr ⟨commit_of_not hnot, hnot⟩

theorem ended_abort (r : VersionedRow α) (t : ℕ) : Ended t r (r.abort t) := by
  rcases r.writes_or_not t with ⟨v, hv⟩ | hnot
  · exact .inl (by rw [abort_of_pending hv])
  · exact .inr ⟨abort_of_not hnot, hnot⟩

/-- What is pending after it is another transaction's, and the row is as it was. -/
theorem Ended.of_pending {r' : VersionedRow α} {o : ℕ} (h : Ended t r r')
    (hp : r'.pending = some (o, v)) : o ≠ t ∧ r' = r := by
  rcases h with hnone | ⟨rfl, hnot⟩
  · cases hnone.symm.trans hp
  · exact ⟨fun ho => hnot v (ho ▸ hp), rfl⟩

/-- The end of a transaction brings no new values. -/
theorem values_commit (r : VersionedRow α) (t : ℕ) (h : v ∈ (r.commit t).values) :
    v ∈ r.values := by
  rcases r.writes_or_not t with ⟨w, hw⟩ | hnot
  · rw [commit_of_pending hw, mem_values] at h
    rcases h with h | ⟨o, ho⟩
    · exact mem_values.2 (.inr ⟨t, by rw [hw, Option.some.inj h]⟩)
    · cases ho
  · rwa [commit_of_not hnot] at h

theorem values_abort (r : VersionedRow α) (t : ℕ) (h : v ∈ (r.abort t).values) : v ∈ r.values := by
  rcases r.writes_or_not t with ⟨w, hw⟩ | hnot
  · rw [abort_of_pending hw, mem_values] at h
    rcases h with h | ⟨o, ho⟩
    · exact mem_values.2 (.inl h)
    · cases ho
  · rwa [abort_of_not hnot] at h

end VersionedRow

/-- A table: its rows in the order in which they were inserted, those that were never committed
included. -/
abbrev TxTable (α : Type*) := List (VersionedRow α)

namespace TxTable

variable {α κ : Type*} [DecidableEq κ] (key : α → Option κ)

/-- What a statement of a transaction reads. -/
def view (T : TxTable α) (t : ℕ) : List α :=
  T.filterMap (·.seenBy t)

/-- Whether another transaction's end decides if the row has the key. -/
def waitsFor (t : ℕ) (k : κ) (r : VersionedRow α) : Bool :=
  match r.pending with
  | some (o, v) => o ≠ t && (r.committed.bind key = some k || key v = some k)
  | none => false

/-- `INSERT .. ON CONFLICT DO NOTHING`: the table, and whether the row was inserted; `none` while it
waits. -/
def insert (T : TxTable α) (t : ℕ) (v : α) : Option (TxTable α × Bool) :=
  match key v with
  | none => some (T ++ [⟨none, some (t, v)⟩], true)
  | some k =>
    if T.any (waitsFor key t k) then none
    else if T.any fun r => (r.seenBy t).bind key = some k then some (T, false)
    else some (T ++ [⟨none, some (t, v)⟩], true)

/-- A write to a row that the transaction sees; `none` while another one has it locked. -/
def update (T : TxTable α) (t : ℕ) (i : ℕ) (f : α → α) : Option (TxTable α) :=
  T[i]?.bind fun r =>
    match r.pending with
    | some (o, v) => if o = t then some (T.set i { r with pending := some (t, f v) }) else none
    | none => r.committed.map fun v => T.set i { r with pending := some (t, f v) }

/-- A row's write taken back within the transaction, to a savepoint. The rows that it wrote since
with the row's committed key were taken back before. -/
def undo (T : TxTable α) (t : ℕ) (i : ℕ) : Option (TxTable α) :=
  T[i]?.bind fun r =>
    if T.all fun s => s.pending.all fun p =>
        p.1 ≠ t || (key p.2).isNone || key p.2 ≠ r.committed.bind key then
      some (T.set i (r.abort t))
    else none

def commit (T : TxTable α) (t : ℕ) : TxTable α :=
  T.map (·.commit t)

def abort (T : TxTable α) (t : ℕ) : TxTable α :=
  T.map (·.abort t)

/-! ### The invariant of the index -/

/-- Of two rows, no values with one key count at once: what is committed of both, or written to
both; what is written to the second counts with what is committed of the first only if the same
transaction wrote to both, so that the first one's value gives way as the second one's comes. -/
structure Apart (r s : VersionedRow α) : Prop where
  committed : ∀ k, r.committed.bind key = some k → s.committed.bind key ≠ some k
  pending : ∀ o v o' v' k, r.pending = some (o, v) → s.pending = some (o', v') → key v = some k →
    key v' ≠ some k
  mixed : ∀ o v k, s.pending = some (o, v) → key v = some k → r.committed.bind key = some k →
    ∃ w, r.pending = some (o, w)

/-- The invariant of the index. -/
def Unique (T : TxTable α) : Prop :=
  T.Pairwise fun r s => Apart key r s ∧ Apart key s r

variable {key} {T T' : TxTable α} {t : ℕ}

variable {r s : VersionedRow α} {i : ℕ} {v : α}

omit [DecidableEq κ] in
/-- Two rows that are apart are not both seen with one key. -/
theorem Apart.seenBy (hrs : Apart key r s) (hsr : Apart key s r) {k : κ}
    (hr : (r.seenBy t).bind key = some k) : (s.seenBy t).bind key ≠ some k := by
  intro hs
  rcases r.writes_or_not t with ⟨v, hv⟩ | hnr <;> rcases s.writes_or_not t with ⟨w, hw⟩ | hns
  · rw [VersionedRow.seenBy_of_pending hv] at hr
    rw [VersionedRow.seenBy_of_pending hw] at hs
    exact hrs.pending _ _ _ _ _ hv hw hr hs
  · rw [VersionedRow.seenBy_of_pending hv] at hr
    rw [VersionedRow.seenBy_of_not hns] at hs
    obtain ⟨w, hw⟩ := hsr.mixed _ _ _ hv hr hs
    exact hns w hw
  · rw [VersionedRow.seenBy_of_not hnr] at hr
    rw [VersionedRow.seenBy_of_pending hw] at hs
    obtain ⟨v, hv⟩ := hrs.mixed _ _ _ hw hs hr
    exact hnr v hv
  · rw [VersionedRow.seenBy_of_not hnr] at hr
    rw [VersionedRow.seenBy_of_not hns] at hs
    exact hrs.committed k hr hs

omit [DecidableEq κ] in
/-- **No statement of any transaction reads a key twice.** -/
theorem keys_nodup (h : Unique key T) (t : ℕ) : ((T.view t).filterMap key).Nodup := by
  unfold view
  rw [List.filterMap_filterMap, List.Nodup, List.pairwise_filterMap]
  refine h.imp fun ⟨hrs, hsr⟩ k hk k' hk' heq => ?_
  subst heq
  exact hrs.seenBy hsr hk hk'

omit [DecidableEq κ] in
/-- **No key is committed twice.** -/
theorem committed_keys_nodup (h : Unique key T) :
    ((T.filterMap (·.committed)).filterMap key).Nodup := by
  rw [List.filterMap_filterMap, List.Nodup, List.pairwise_filterMap]
  refine h.imp fun ⟨hrs, _⟩ k hk k' hk' heq => ?_
  subst heq
  exact hrs.committed k hk hk'

/-! ### The writes -/

/-- One element of a list in which all pairs are related, replaced. -/
theorem pairwise_set {β : Type*} {R : β → β → Prop} (hsymm : ∀ a b, R a b → R b a) {l : List β}
    {a a' : β} (ha : l[i]? = some a) (hl : l.Pairwise R)
    (h : ∀ b ∈ l, R a b → R a' b) : (l.set i a').Pairwise R := by
  induction l generalizing i with
  | nil => exact hl
  | cons b bs ih =>
    obtain ⟨hb, hbs⟩ := List.pairwise_cons.1 hl
    cases i with
    | zero =>
      obtain rfl : b = a := Option.some.inj ha
      exact List.pairwise_cons.2 ⟨fun c hc => h c (List.mem_cons_of_mem _ hc) (hb c hc), hbs⟩
    | succ i =>
      have ha' : bs[i]? = some a := ha
      rw [List.set_cons_succ, List.pairwise_cons]
      refine ⟨fun c hc => ?_, ih ha' hbs fun c hc => h c (List.mem_cons_of_mem _ hc)⟩
      rcases List.mem_or_eq_of_mem_set hc with hc | rfl
      · exact hb c hc
      · have hab : R a b := hsymm _ _ (hb a (List.mem_of_getElem? ha'))
        exact hsymm _ _ (h b List.mem_cons_self hab)

/-- **What an insertion does**: nothing, or it adds a row of whose key no row is seen and none is
waited for. -/
theorem insert_eq_some {done : Bool} (h : T.insert key t v = some (T', done)) :
    (done = false ∧ T' = T ∧ ∃ k, key v = some k ∧ ∃ r ∈ T, (r.seenBy t).bind key = some k) ∨
    (done = true ∧ T' = T ++ [⟨none, some (t, v)⟩] ∧ ∀ k, key v = some k → ∀ r ∈ T,
      waitsFor key t k r = false ∧ (r.seenBy t).bind key ≠ some k) := by
  unfold insert at h
  split at h
  · rename_i hnone
    cases h
    refine .inr ⟨rfl, rfl, fun k hk => ?_⟩
    rw [hnone] at hk
    cases hk
  · rename_i k hk
    split at h
    · cases h
    · rename_i hwait
      split at h
      · rename_i hseen
        cases h
        obtain ⟨r, hr, hkey⟩ := List.any_eq_true.1 hseen
        exact .inl ⟨rfl, rfl, k, hk, r, hr, of_decide_eq_true hkey⟩
      · rename_i hseen
        cases h
        refine .inr ⟨rfl, rfl, fun k' hk' r hr => ?_⟩
        obtain rfl : k = k' := Option.some.inj (hk.symm.trans hk')
        refine ⟨?_, fun hkey => hseen (List.any_eq_true.2 ⟨r, hr, decide_eq_true hkey⟩)⟩
        exact Bool.eq_false_iff.2 fun hw => hwait (List.any_eq_true.2 ⟨r, hr, hw⟩)

/-- A row of another transaction that has the key is waited for. -/
theorem waitsFor_of_other {o : ℕ} {k : κ} (hp : r.pending = some (o, v)) (ho : o ≠ t)
    (hk : r.committed.bind key = some k ∨ key v = some k) : waitsFor key t k r = true := by
  unfold waitsFor
  rw [hp]
  simpa [ho] using hk

theorem Unique.insert {done : Bool} (hT : Unique key T)
    (h : T.insert key t v = some (T', done)) : Unique key T' := by
  rcases insert_eq_some h with ⟨-, rfl, -⟩ | ⟨-, rfl, hfree⟩
  · exact hT
  · refine List.pairwise_append.2 ⟨hT, List.pairwise_singleton _ _, fun r hr s hs => ?_⟩
    obtain rfl := List.mem_singleton.1 hs
    -- What the row has is neither seen nor waited for.
    have hpending : ∀ o w k, r.pending = some (o, w) → key w = some k → key v ≠ some k := by
      intro o w k hp hw hv
      obtain ⟨hwait, hseen⟩ := hfree k hv r hr
      by_cases ho : o = t
      · subst ho
        exact hseen (by rw [VersionedRow.seenBy_of_pending hp]; exact hw)
      · rw [waitsFor_of_other hp ho (.inr hw)] at hwait
        cases hwait
    have hmixed : ∀ k, key v = some k → r.committed.bind key = some k →
        ∃ w, r.pending = some (t, w) := by
      intro k hv hc
      obtain ⟨hwait, hseen⟩ := hfree k hv r hr
      rcases r.writes_or_not t with hown | hnot
      · exact hown
      · exact absurd (by rw [VersionedRow.seenBy_of_not hnot]; exact hc) hseen
    refine ⟨⟨fun k _ hn => (by cases hn), fun o w o' v' k hp hn hw hv => ?_, ?_⟩,
      ⟨fun k hn => (by cases hn), fun o w o' v' k hn hp hw hv => ?_, fun o w k _ _ hn => ?_⟩⟩
    · cases hn
      exact hpending o w k hp hw hv
    · intro o w k hn hw hc
      cases hn
      exact hmixed k hw hc
    · cases hn
      exact hpending o' v' k hp hv hw
    · cases hn

/-- **What an update does**: the row is not locked by another transaction, and has what the
transaction made of the value that it saw. -/
theorem update_eq_some {f : α → α} (h : T.update t i f = some T') :
    ∃ r v, T[i]? = some r ∧ r.seenBy t = some v ∧ (∀ o w, r.pending = some (o, w) → o = t) ∧
      T' = T.set i ⟨r.committed, some (t, f v)⟩ := by
  obtain ⟨r, hr, h⟩ := Option.bind_eq_some_iff.1 h
  split at h
  · rename_i o v hp
    split at h
    · rename_i ho
      subst ho
      refine ⟨r, v, hr, VersionedRow.seenBy_of_pending hp, fun o' w hw => ?_,
        (Option.some.inj h).symm⟩
      exact (Prod.mk.inj (Option.some.inj (hw.symm.trans hp))).1
    · cases h
  · rename_i hp
    obtain ⟨v, hv, rfl⟩ := Option.map_eq_some_iff.1 h
    refine ⟨r, v, hr, ?_, fun o w hw => ?_, rfl⟩
    · rw [VersionedRow.seenBy_of_not (fun w hw => by rw [hp] at hw; cases hw), hv]
    · rw [hp] at hw
      cases hw

omit [DecidableEq κ] in
theorem Unique.update {f : α → α} (hT : Unique key T)
    (hf : ∀ v k, key (f v) = some k → key v = some k) (h : T.update t i f = some T') :
    Unique key T' := by
  obtain ⟨r, v, hr, hv, hown, rfl⟩ := update_eq_some h
  refine pairwise_set (fun _ _ hab => ⟨hab.2, hab.1⟩) hr hT fun s _ ⟨hrs, hsr⟩ => ?_
  -- The value that was seen is the transaction's own, or what is committed of a row without write.
  have hwas : r.pending = some (t, v) ∨ (r.pending = none ∧ r.committed = some v) := by
    cases hp : r.pending with
    | none =>
      refine .inr ⟨rfl, ?_⟩
      rwa [VersionedRow.seenBy_of_not (fun w hw => by rw [hp] at hw; cases hw)] at hv
    | some p =>
      obtain ⟨o, w⟩ := p
      obtain rfl : o = t := hown o w hp
      rw [VersionedRow.seenBy_of_pending hp] at hv
      exact .inl (by rw [Option.some.inj hv])
  have hpending : ∀ o' v' k, s.pending = some (o', v') → key (f v) = some k → key v' ≠ some k := by
    intro o' v' k hs hk hk'
    have hkv := hf v k hk
    rcases hwas with hp | ⟨hp, hc⟩
    · exact hrs.pending _ _ _ _ _ hp hs hkv hk'
    · obtain ⟨w, hw⟩ := hrs.mixed _ _ _ hs hk' (by rw [hc]; exact hkv)
      rw [hp] at hw
      cases hw
  refine ⟨⟨hrs.committed, fun o w o' v' k hp hs hw hv' => ?_, fun o w k hs hw hc => ?_⟩,
    ⟨hsr.committed, fun o w o' v' k hs hp hw hv' => ?_, fun o w k hp hw hc => ?_⟩⟩
  · cases hp
    exact hpending o' v' k hs hw hv'
  · obtain ⟨w', hw'⟩ := hrs.mixed _ _ _ hs hw hc
    exact ⟨f v, by rw [hown o w' hw']⟩
  · cases hp
    exact hpending o w k hs hv' hw
  · cases hp
    have hkv := hf v k hw
    rcases hwas with hp' | ⟨-, hc'⟩
    · exact hsr.mixed _ _ _ hp' hkv hc
    · exact absurd (by rw [hc']; exact hkv) (hsr.committed k hc)

/-! ### The ends of transactions -/

omit [DecidableEq κ] in
theorem Apart.commit (hrs : Apart key r s) (hsr : Apart key s r) :
    Apart key (r.commit t) (s.commit t) := by
  rcases r.writes_or_not t with ⟨v, hv⟩ | hnr <;> rcases s.writes_or_not t with ⟨w, hw⟩ | hns
  · rw [VersionedRow.commit_of_pending hv, VersionedRow.commit_of_pending hw]
    refine ⟨fun k hk hk' => hrs.pending _ _ _ _ _ hv hw hk hk', ?_, ?_⟩
    · intro o _ _ _ _ hp
      cases hp
    · intro o _ _ hp
      cases hp
  · rw [VersionedRow.commit_of_pending hv, VersionedRow.commit_of_not hns]
    refine ⟨fun k hk hk' => ?_, fun o _ _ _ _ hp => (by cases hp), fun o x k hp hx hk => ?_⟩
    · obtain ⟨w, hw⟩ := hsr.mixed _ _ _ hv hk hk'
      exact hns w hw
    · exact absurd hx (hrs.pending _ _ _ _ _ hv hp hk)
  · rw [VersionedRow.commit_of_not hnr, VersionedRow.commit_of_pending hw]
    refine ⟨fun k hk hk' => ?_, fun o _ _ _ _ _ hp => (by cases hp), fun o _ _ hp => by cases hp⟩
    obtain ⟨v, hv⟩ := hrs.mixed _ _ _ hw hk' hk
    exact hnr v hv
  · rw [VersionedRow.commit_of_not hnr, VersionedRow.commit_of_not hns]
    exact hrs

omit [DecidableEq κ] in
theorem Unique.commit (hT : Unique key T) (t : ℕ) : Unique key (T.commit t) :=
  List.pairwise_map.2 (hT.imp fun ⟨hrs, hsr⟩ => ⟨hrs.commit hsr, hsr.commit hrs⟩)

omit [DecidableEq κ] in
theorem Apart.abort (hrs : Apart key r s) : Apart key (r.abort t) (s.abort t) := by
  rcases r.writes_or_not t with ⟨v, hv⟩ | hnr <;> rcases s.writes_or_not t with ⟨w, hw⟩ | hns
  · rw [VersionedRow.abort_of_pending hv, VersionedRow.abort_of_pending hw]
    exact ⟨hrs.committed, fun o _ _ _ _ hp => (by cases hp), fun o _ _ hp => by cases hp⟩
  · rw [VersionedRow.abort_of_pending hv, VersionedRow.abort_of_not hns]
    refine ⟨hrs.committed, fun o _ _ _ _ hp => (by cases hp), fun o x k hp hx hk => ?_⟩
    obtain ⟨v', hv'⟩ := hrs.mixed _ _ _ hp hx hk
    rw [hv, Option.some.injEq, Prod.mk.injEq] at hv'
    exact absurd (hv'.1 ▸ hp) (hns x)
  · rw [VersionedRow.abort_of_not hnr, VersionedRow.abort_of_pending hw]
    exact ⟨hrs.committed, fun o _ _ _ _ _ hp => (by cases hp), fun o _ _ hp => by cases hp⟩
  · rw [VersionedRow.abort_of_not hnr, VersionedRow.abort_of_not hns]
    exact hrs

omit [DecidableEq κ] in
theorem Unique.abort (hT : Unique key T) (t : ℕ) : Unique key (T.abort t) :=
  List.pairwise_map.2 (hT.imp fun ⟨hrs, hsr⟩ => ⟨hrs.abort, hsr.abort⟩)

/-- What taking a row's write back does: no write of the transaction has the row's committed key. -/
theorem undo_eq_some (h : T.undo key t i = some T') :
    ∃ r, T[i]? = some r ∧ T' = T.set i (r.abort t) ∧
      ∀ s ∈ T, ∀ v k, s.pending = some (t, v) → key v = some k → r.committed.bind key ≠ some k := by
  obtain ⟨r, hr, h⟩ := Option.bind_eq_some_iff.1 h
  split at h
  · rename_i hall
    refine ⟨r, hr, (Option.some.inj h).symm, fun s hs v k hp hk hc => ?_⟩
    have hs' := List.all_eq_true.1 hall s hs
    simp [hp, hk, hc] at hs'
  · cases h

theorem Unique.undo (hT : Unique key T) (h : T.undo key t i = some T') : Unique key T' := by
  obtain ⟨r, hr, rfl, hfree⟩ := undo_eq_some h
  refine pairwise_set (fun _ _ hab => ⟨hab.2, hab.1⟩) hr hT fun s hs ⟨hrs, hsr⟩ => ?_
  rcases r.writes_or_not t with ⟨v, hv⟩ | hnr
  · rw [VersionedRow.abort_of_pending hv]
    refine ⟨⟨hrs.committed, fun o _ _ _ _ hp => (by cases hp), fun o w k hp hw hc => ?_⟩,
      ⟨hsr.committed, fun o _ _ _ _ _ hp => (by cases hp), fun o _ _ hp => by cases hp⟩⟩
    obtain ⟨v', hv'⟩ := hrs.mixed _ _ _ hp hw hc
    rw [hv, Option.some.injEq, Prod.mk.injEq] at hv'
    exact absurd hc (hfree s hs w k (hv'.1 ▸ hp) hw)
  · rw [VersionedRow.abort_of_not hnr]
    exact ⟨hrs, hsr⟩

end TxTable

end Foundations
