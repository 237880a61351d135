import Munin.Foundations.BulkUpdate

/-!
# Insertions after a look

A table has no unique index; instead, each transaction looks for a key first, and inserts a row with
it if it sees none. Under read committed isolation that keeps keys unique as long as no transaction
commits a row that another one has looked for in vain.

* **`LookLaw`** — the invariant: committed keys are unique, nothing that was looked for in vain is
  committed, and what a transaction has inserted it has looked for, and nothing else.
* **`InsertOnly`** — rows are inserted and never written again, so what is committed stays.
* **`LookLaw.look`, `insert`, `update`, `commit`, `abort`** — the statements keep it;
  a commit does if it leaves alone what the others have looked for.
-/

namespace Foundations

variable {α κ : Type*} (key : α → Option κ)

/-- The invariant of a table with keys, `looked t k` for the keys that a transaction has looked for
in vain. -/
structure LookLaw (T : TxTable α) (looked : ℕ → κ → Prop) : Prop where
  unique : ∀ i j v w k, T.com i = some v → T.com j = some w → key v = some k → key w = some k →
    i = j
  absent : ∀ u k, looked u k → ∀ i v, T.com i = some v → key v ≠ some k
  /-- A row that was written keeps its key, or was inserted after a look. -/
  pending : ∀ u i v k, T.own u i = some v → key v = some k →
    (∃ old, T.com i = some old ∧ key old = some k) ∨ (T.com i = none ∧ looked u k)
  /-- A transaction inserts one row. -/
  once : ∀ u i j v w, T.com i = none → T.com j = none → T.own u i = some v → T.own u j = some w →
    i = j

/-- What is committed, by rows and by places. -/
theorem TxTable.exists_committed_iff {T : TxTable α} {P : α → Prop} :
    (∃ r ∈ T, ∃ v ∈ r.committed, P v) ↔ ∃ i v, T.com i = some v ∧ P v := by
  constructor
  · rintro ⟨r, hr, v, hv, hP⟩
    obtain ⟨i, hi⟩ := List.mem_iff_getElem?.1 hr
    exact ⟨i, v, by rw [TxTable.com, hi, Option.bind_some, Option.mem_def.1 hv], hP⟩
  · rintro ⟨i, v, hv, hP⟩
    obtain ⟨r, hr, hv⟩ := Option.bind_eq_some_iff.1 hv
    exact ⟨r, List.mem_of_getElem? hr, v, hv, hP⟩

theorem TxTable.own_eq_none {T : TxTable α} (h : ∀ r ∈ T, r.pending = none) (u i : ℕ) :
    T.own u i = none := by
  refine Option.eq_none_iff_forall_ne_some.2 fun v hv => ?_
  obtain ⟨r, hr, hv⟩ := Option.bind_eq_some_iff.1 hv
  rw [VersionedRow.ownBy_eq_some, h r (List.mem_of_getElem? hr)] at hv
  cases hv

namespace LookLaw

variable {key} {T T' : TxTable α} {looked : ℕ → κ → Prop} {t : ℕ}

/-- A table with unique keys in which nothing is written or looked for. -/
theorem start (hown : ∀ u i, T.own u i = none) (hlooked : ∀ u k, ¬ looked u k)
    (hunique : ∀ i j v w k, T.com i = some v → T.com j = some w → key v = some k →
      key w = some k → i = j) : LookLaw key T looked where
  unique := hunique
  absent u k hk := absurd hk (hlooked u k)
  pending u i v k hv := by
    rw [hown] at hv
    cases hv
  once u i j v w _ _ hv := by
    rw [hown] at hv
    cases hv

variable {i : ℕ} {looked' : ℕ → κ → Prop}

/-- No transaction sees a key twice. -/
theorem unique_seen (h : LookLaw key T looked) {j : ℕ} {v w : α} {k : κ}
    (hv : T.seen t i = some v) (hw : T.seen t j = some w) (hkv : key v = some k)
    (hkw : key w = some k) : i = j := by
  have hcases : ∀ l x, T.seen t l = some x → key x = some k →
      (∃ old, T.com l = some old ∧ key old = some k) ∨
        (T.com l = none ∧ looked t k ∧ T.own t l = some x) := by
    intro l x hx hkx
    cases hown : T.own t l with
    | none => exact .inl ⟨x, TxTable.seen_of_not hown ▸ hx, hkx⟩
    | some y =>
      obtain rfl : y = x := Option.some.inj ((TxTable.seen_of_own hown).symm.trans hx)
      exact (h.pending t l y k hown hkx).imp_right fun hnew => ⟨hnew.1, hnew.2, rfl⟩
  rcases hcases i v hv hkv with ⟨v', hv', hkv'⟩ | ⟨hi, hlooked, hown⟩ <;>
    rcases hcases j w hw hkw with ⟨w', hw', hkw'⟩ | ⟨hj, hlooked', hown'⟩
  · exact h.unique i j v' w' k hv' hw' hkv' hkw'
  · exact absurd hkv' (h.absent t k hlooked' i v' hv')
  · exact absurd hkw' (h.absent t k hlooked j w' hw')
  · exact h.once t i j v w hi hj hown hown'

/-- A transaction that has written nothing looks for a key in vain. -/
theorem look (h : LookLaw key T looked) (hlooked : ∀ u k, looked' u k → looked u k ∨
      (∀ i v, T.com i = some v → key v ≠ some k)) (hkept : ∀ u k, looked u k → looked' u k) :
    LookLaw key T looked' where
  unique := h.unique
  absent u k hk i v hv := by
    rcases hlooked u k hk with hold | hnew
    · exact h.absent u k hold i v hv
    · exact hnew i v hv
  pending u i v k hv hk := (h.pending u i v k hv hk).imp_right fun hn => ⟨hn.1, hkept u k hn.2⟩
  once := h.once

/-- A row is inserted after a look, the first one of its transaction. -/
theorem insert (h : LookLaw key T looked) {v : α} (hlooked : ∀ k, key v = some k → looked t k)
    (hfirst : ∀ i, T.com i = none → T.own t i = none) :
    LookLaw key (T ++ [⟨none, some (t, v)⟩]) looked := by
  have hlast : T.com T.length = none := by
    rw [TxTable.com, List.getElem?_eq_none le_rfl, Option.bind_none]
  refine
    { unique := fun i j x y k hx hy => ?_, absent := fun u k hk i x hx => ?_
      pending := fun u i x k hx hkx => ?_, once := fun u i j x y hi hj hx hy => ?_ }
  · rw [TxTable.com_append] at hx hy
    exact h.unique i j x y k hx hy
  · rw [TxTable.com_append] at hx
    exact h.absent u k hk i x hx
  · rw [TxTable.com_append]
    rw [TxTable.own_append] at hx
    split at hx
    · rename_i hnew
      obtain rfl := Option.some.inj hx
      rw [hnew.1, hnew.2]
      exact .inr ⟨hlast, hlooked k hkx⟩
    · exact h.pending u i x k hx hkx
  · rw [TxTable.com_append] at hi hj
    rw [TxTable.own_append] at hx hy
    split at hx <;> split at hy
    · rename_i hnew hnew'
      rw [hnew.2, hnew'.2]
    · rename_i hnew _
      rw [hnew.1, hfirst j hj] at hy
      cases hy
    · rename_i _ hnew'
      rw [hnew'.1, hfirst i hi] at hx
      cases hx
    · exact h.once u i j x y hi hj hx hy

/-- A row that the transaction has written after an update was written before, or was read with
the condition of the update, as its own or a committed value. -/
theorem own_of_update {j : ℕ} {p : α → Bool} {f : α → α} {x : α}
    (hup : T.updateFound t i p f = some T') (hx : T'.own t j = some x) :
    T.own t j = some x ∨ ∃ v, x = f v ∧ p v = true ∧ T.seen t i = some v ∧
      (T.own t j = some v ∨ T.com j = some v) := by
  rcases (TxTable.sight_updateFound hup).own_cases hx with hold | ⟨rfl, v, hv, hp, rfl⟩
  · exact .inl hold
  · rcases Sight.seen_cases hv with hown | ⟨-, hcom⟩
    · exact .inr ⟨v, rfl, hp, hv, .inl hown⟩
    · exact .inr ⟨v, rfl, hp, hv, .inr hcom⟩

/-- An update that gives its row no new key. -/
theorem update (h : LookLaw key T looked) {p : α → Bool} {f : α → α}
    (hf : ∀ v k, T.seen t i = some v → p v = true → key (f v) = some k → key v = some k)
    (hup : T.updateFound t i p f = some T') : LookLaw key T' looked := by
  have hat := TxTable.updateFound_eq_some hup
  have hown : ∀ u j x, T'.own u j = some x → T.com j = none → ∃ y, T.own u j = some y := by
    intro u j x hx hnone
    by_cases hu : u = t
    · subst hu
      rcases own_of_update hup hx with hold | ⟨v, -, -, -, hv | hv⟩
      · exact ⟨x, hold⟩
      · exact ⟨v, hv⟩
      · rw [hnone] at hv
        cases hv
    · exact ⟨x, hat.other u j hu ▸ hx⟩
  refine
    { unique := fun j l x y k hx hy => ?_, absent := fun u k hk j x hx => ?_
      pending := fun u j x k hx hkx => ?_, once := fun u j l x y hj hl hx hy => ?_ }
  · rw [hat.com] at hx hy
    exact h.unique j l x y k hx hy
  · rw [hat.com] at hx
    exact h.absent u k hk j x hx
  · rw [hat.com]
    by_cases hu : u = t
    · subst hu
      rcases own_of_update hup hx with hold | ⟨v, rfl, hp, hseen, hv | hv⟩
      · exact h.pending u j x k hold hkx
      · exact h.pending u j v k hv (hf v k hseen hp hkx)
      · exact .inl ⟨v, hv, hf v k hseen hp hkx⟩
    · rw [hat.other u j hu] at hx
      exact h.pending u j x k hx hkx
  · rw [hat.com] at hj hl
    obtain ⟨x', hx'⟩ := hown u j x hx hj
    obtain ⟨y', hy'⟩ := hown u l y hy hl
    exact h.once u j l x' y' hj hl hx' hy'

/-- A commit that leaves alone what the others have looked for. -/
theorem commit (h : LookLaw key T looked) (hlooked : ∀ u k, looked' u k ↔ u ≠ t ∧ looked u k)
    (hothers : ∀ u k, looked' u k → ∀ i v, (T.commit t).com i = some v → key v ≠ some k) :
    LookLaw key (T.commit t) looked' := by
  refine
    { unique := fun i j x y k hx hy => ?_, absent := hothers
      pending := fun u i x k hx hkx => ?_, once := fun u i j x y hi hj hx hy => ?_ }
  · rw [TxTable.com_commit] at hx hy
    exact h.unique_seen hx hy
  · rw [TxTable.own_commit] at hx
    split at hx
    · cases hx
    · rename_i hu
      rw [TxTable.com_commit, TxTable.seen_of_not (TxTable.own_eq_none_of_own hx (Ne.symm hu))]
      exact (h.pending u i x k hx hkx).imp_right fun hn => ⟨hn.1, (hlooked u k).2 ⟨hu, hn.2⟩⟩
  · rw [TxTable.own_commit] at hx hy
    split at hx
    · cases hx
    · rename_i hu
      rw [if_neg hu] at hy
      rw [TxTable.com_commit, TxTable.seen_of_not (TxTable.own_eq_none_of_own hx (Ne.symm hu))] at hi
      rw [TxTable.com_commit, TxTable.seen_of_not (TxTable.own_eq_none_of_own hy (Ne.symm hu))] at hj
      exact h.once u i j x y hi hj hx hy

/-- An abort. -/
theorem abort (h : LookLaw key T looked)
    (hlooked : ∀ u k, looked' u k ↔ u ≠ t ∧ looked u k) : LookLaw key (T.abort t) looked' := by
  refine
    { unique := fun i j x y k hx hy => ?_, absent := fun u k hk i x hx => ?_
      pending := fun u i x k hx hkx => ?_, once := fun u i j x y hi hj hx hy => ?_ }
  · rw [TxTable.com_abort] at hx hy
    exact h.unique i j x y k hx hy
  · rw [TxTable.com_abort] at hx
    exact h.absent u k ((hlooked u k).1 hk).2 i x hx
  · rw [TxTable.own_abort] at hx
    split at hx
    · cases hx
    · rename_i hu
      rw [TxTable.com_abort]
      exact (h.pending u i x k hx hkx).imp_right fun hn => ⟨hn.1, (hlooked u k).2 ⟨hu, hn.2⟩⟩
  · rw [TxTable.com_abort] at hi hj
    rw [TxTable.own_abort] at hx hy
    split at hx
    · cases hx
    · rename_i hu
      rw [if_neg hu] at hy
      exact h.once u i j x y hi hj hx hy

end LookLaw

/-! ### Tables whose rows are never written again -/

/-- Rows are only inserted. -/
def InsertOnly (T : TxTable α) : Prop :=
  ∀ u i v, T.own u i = some v → T.com i = none

namespace InsertOnly

variable {T : TxTable α} {t u i : ℕ} {v : α}

/-- What is committed is seen by everyone. -/
theorem seen_of_com (h : InsertOnly T) (hv : T.com i = some v) : T.seen u i = some v := by
  rw [TxTable.seen_of_not, hv]
  refine Option.eq_none_iff_forall_ne_some.2 fun w hw => ?_
  rw [h u i w hw] at hv
  cases hv

theorem com_commit (h : InsertOnly T) (hv : T.com i = some v) : (T.commit t).com i = some v := by
  rw [TxTable.com_commit]
  exact h.seen_of_com hv

theorem append (h : InsertOnly T) (v : α) : InsertOnly (T ++ [⟨none, some (t, v)⟩]) := by
  intro u i w hw
  rw [TxTable.com_append]
  rw [TxTable.own_append] at hw
  split at hw
  · rename_i hlast
    rw [hlast.2, TxTable.com, List.getElem?_eq_none le_rfl, Option.bind_none]
  · exact h u i w hw

theorem commit (h : InsertOnly T) : InsertOnly (T.commit t) := by
  intro u i w hw
  rw [TxTable.own_commit] at hw
  split at hw
  · cases hw
  · rename_i hu
    rw [TxTable.com_commit, TxTable.seen_of_not (TxTable.own_eq_none_of_own hw (Ne.symm hu))]
    exact h u i w hw

theorem abort (h : InsertOnly T) : InsertOnly (T.abort t) := by
  intro u i w hw
  rw [TxTable.com_abort]
  rw [TxTable.own_abort] at hw
  split at hw
  · cases hw
  · exact h u i w hw

end InsertOnly

end Foundations
