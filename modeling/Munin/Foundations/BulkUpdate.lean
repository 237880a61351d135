import Munin.Foundations.ReadCommitted
import Mathlib.Data.List.Range

/-!
# Statements that update many rows

Under read committed isolation an `UPDATE` takes the rows that satisfy its condition as it starts,
one by one. For each it waits until no other transaction has the row locked, looks at the condition
again, and then writes the row.

* **`com`, `own`** — a table, as the committed value and the writes of each transaction at each row.
* **`found`, `updateFound`** — the rows that a statement finds, and what it does to one of them.
* **`com_commit`, `updateFound_eq_some`** — how statements and ends of transactions change `com` and
  `own`: no transaction changes what another one has written.
-/

namespace Foundations

namespace VersionedRow

variable {α : Type*} (r : VersionedRow α)

/-- What the transaction has written to the row. -/
def ownBy (t : ℕ) : Option α :=
  r.pending.bind fun w => if w.1 = t then some w.2 else none

/-- Whether another transaction has the row locked. -/
def lockedFor (t : ℕ) : Bool :=
  r.pending.any fun w => decide (w.1 ≠ t)

variable {r}

theorem ownBy_eq_some {t : ℕ} {v : α} : r.ownBy t = some v ↔ r.pending = some (t, v) := by
  unfold ownBy
  constructor
  · intro h
    obtain ⟨⟨o, w⟩, hp, h⟩ := Option.bind_eq_some_iff.1 h
    split at h
    · rename_i ho
      rw [hp, ← Option.some.inj h, ← ho]
    · cases h
  · intro h
    simp [h]

theorem seenBy_eq (r : VersionedRow α) (t : ℕ) :
    r.seenBy t = (r.ownBy t).orElse fun _ => r.committed := by
  rcases r.writes_or_not t with ⟨v, hv⟩ | hnot
  · rw [seenBy_of_pending hv, ownBy_eq_some.2 hv, Option.orElse_some]
  · have hnone : r.ownBy t = none :=
      Option.eq_none_iff_forall_ne_some.2 fun v hv => hnot v (ownBy_eq_some.1 hv)
    rw [seenBy_of_not hnot, hnone, Option.orElse_none]

/-- Once a transaction has ended, a row has no write of it; those of others stay. -/
theorem ownBy_ended {r' : VersionedRow α} {t : ℕ}
    (hwrites : ∀ v, r.pending = some (t, v) → r'.pending = none)
    (hnot : (∀ v, r.pending ≠ some (t, v)) → r' = r) (u : ℕ) :
    r'.ownBy u = if u = t then none else r.ownBy u := by
  rcases r.writes_or_not t with ⟨v, hv⟩ | hother
  · have hnone : r.ownBy u = if u = t then r.ownBy u else none := by
      split
      · rfl
      · rename_i hu
        refine Option.eq_none_iff_forall_ne_some.2 fun w hw => ?_
        rw [ownBy_eq_some, hv] at hw
        exact hu (congrArg Prod.fst (Option.some.inj hw)).symm
    rw [hnone, ownBy, hwrites v hv]
    split <;> rfl
  · rw [hnot hother]
    split
    · rename_i hu
      subst hu
      exact Option.eq_none_iff_forall_ne_some.2 fun w hw => hother w (ownBy_eq_some.1 hw)
    · rfl

theorem ownBy_of_not_locked {t u : ℕ} (h : r.lockedFor t = false) (hu : u ≠ t) :
    r.ownBy u = none := by
  refine Option.eq_none_iff_forall_ne_some.2 fun v hv => ?_
  rw [ownBy_eq_some] at hv
  simp [lockedFor, hv, hu] at h

end VersionedRow

namespace TxTable

variable {α : Type*} (T : TxTable α)

/-! ### A table, row by row -/

/-- What is committed at a row. -/
def com (i : ℕ) : Option α :=
  T[i]?.bind (·.committed)

/-- What a transaction has written at a row. -/
def own (t i : ℕ) : Option α :=
  T[i]?.bind (·.ownBy t)

/-- What a transaction reads at a row. -/
def seen (t i : ℕ) : Option α :=
  (T.own t i).orElse fun _ => T.com i

variable {T}

variable {t i : ℕ} {v : α}

theorem seen_of_own (h : T.own t i = some v) : T.seen t i = some v := by
  rw [seen, h, Option.orElse_some]

theorem seen_of_not (h : T.own t i = none) : T.seen t i = T.com i := by
  rw [seen, h, Option.orElse_none]

theorem seen_eq (T : TxTable α) (t i : ℕ) : T.seen t i = T[i]?.bind (·.seenBy t) := by
  unfold seen own com
  cases T[i]? with
  | none => rfl
  | some r => exact (r.seenBy_eq t).symm

/-- A row is written by one transaction at a time. -/
theorem own_unique {u : ℕ} {w : α} (ht : T.own t i = some v) (hu : T.own u i = some w) : t = u := by
  obtain ⟨r, hr, hrt⟩ := Option.bind_eq_some_iff.1 ht
  obtain ⟨s, hs, hsu⟩ := Option.bind_eq_some_iff.1 hu
  obtain rfl := Option.some.inj (hr.symm.trans hs)
  rw [VersionedRow.ownBy_eq_some] at hrt hsu
  exact congrArg Prod.fst (Option.some.inj (hrt.symm.trans hsu))

theorem own_eq_none_of_own {u : ℕ} (ht : T.own t i = some v) (hu : u ≠ t) : T.own u i = none :=
  Option.eq_none_iff_forall_ne_some.2 fun _ hw => hu (own_unique hw ht)

theorem mem_view : v ∈ T.view t ↔ ∃ i, T.seen t i = some v := by
  unfold view
  rw [List.mem_filterMap]
  constructor
  · rintro ⟨r, hr, hv⟩
    obtain ⟨i, hi⟩ := List.mem_iff_getElem?.1 hr
    exact ⟨i, by rw [seen_eq, hi, Option.bind_some, hv]⟩
  · rintro ⟨i, hi⟩
    rw [seen_eq] at hi
    obtain ⟨r, hr, hv⟩ := Option.bind_eq_some_iff.1 hi
    exact ⟨r, List.mem_of_getElem? hr, hv⟩

/-! ### The ends of transactions -/

theorem com_commit (T : TxTable α) (t i : ℕ) : (T.commit t).com i = T.seen t i := by
  rw [seen_eq]
  unfold com commit
  rw [List.getElem?_map]
  cases T[i]? with
  | none => rfl
  | some r =>
    simp only [Option.map_some, Option.bind_some]
    rcases r.writes_or_not t with ⟨v, hv⟩ | hnot
    · rw [VersionedRow.commit_of_pending hv, VersionedRow.seenBy_of_pending hv]
    · rw [VersionedRow.commit_of_not hnot, VersionedRow.seenBy_of_not hnot]

theorem own_commit (T : TxTable α) (t u i : ℕ) :
    (T.commit t).own u i = if u = t then none else T.own u i := by
  unfold own commit
  rw [List.getElem?_map]
  cases T[i]? with
  | none => simp
  | some r =>
    exact VersionedRow.ownBy_ended (fun v hv => by rw [VersionedRow.commit_of_pending hv])
      VersionedRow.commit_of_not u

theorem com_abort (T : TxTable α) (t i : ℕ) : (T.abort t).com i = T.com i := by
  unfold com abort
  rw [List.getElem?_map]
  cases T[i]? with
  | none => rfl
  | some r =>
    simp only [Option.map_some, Option.bind_some]
    rcases r.writes_or_not t with ⟨v, hv⟩ | hnot
    · rw [VersionedRow.abort_of_pending hv]
    · rw [VersionedRow.abort_of_not hnot]

theorem own_abort (T : TxTable α) (t u i : ℕ) :
    (T.abort t).own u i = if u = t then none else T.own u i := by
  unfold own abort
  rw [List.getElem?_map]
  cases T[i]? with
  | none => simp
  | some r =>
    exact VersionedRow.ownBy_ended (fun v hv => by rw [VersionedRow.abort_of_pending hv])
      VersionedRow.abort_of_not u

/-! ### Updates -/

/-- The rows that an `UPDATE` of a transaction finds as it starts. -/
def found (T : TxTable α) (t : ℕ) (p : α → Bool) : List ℕ :=
  (List.range T.length).filter fun i => (T.seen t i).any p

/-- One of the rows that were found, in its turn: the statement waits (`none`) while another
transaction has it locked, and then writes it if it still satisfies the condition. -/
def updateFound (T : TxTable α) (t i : ℕ) (p : α → Bool) (f : α → α) : Option (TxTable α) :=
  T[i]?.bind fun r =>
    if r.lockedFor t then none
    else match (r.seenBy t).filter p with
      | some v => some (T.set i { r with pending := some (t, f v) })
      | none => some T

theorem mem_found {p : α → Bool} : i ∈ T.found t p ↔ ∃ v, T.seen t i = some v ∧ p v = true := by
  unfold found
  rw [List.mem_filter, List.mem_range, Option.any_eq_true]
  refine ⟨fun h => h.2, fun ⟨v, hv, hp⟩ => ⟨?_, v, hv, hp⟩⟩
  rw [seen_eq] at hv
  obtain ⟨r, hr, -⟩ := Option.bind_eq_some_iff.1 hv
  exact (List.getElem?_eq_some_iff.1 hr).1

/-- What a statement does to one of its rows: nothing is committed, no other transaction has
written the row, and only there does this one write, if it reads a value that satisfies the
condition. -/
structure UpdatedAt (T T' : TxTable α) (t i : ℕ) (p : α → Bool) (f : α → α) : Prop where
  com : ∀ j, T'.com j = T.com j
  other : ∀ u j, u ≠ t → T'.own u j = T.own u j
  free : ∀ u, u ≠ t → T.own u i = none
  elsewhere : ∀ j, j ≠ i → T'.own t j = T.own t j
  written : ∀ v, T.seen t i = some v → p v = true → T'.own t i = some (f v)
  skipped : (∀ v, T.seen t i = some v → p v = false) → T'.own t i = T.own t i

theorem updateFound_eq_some {T' : TxTable α} {p : α → Bool} {f : α → α}
    (h : T.updateFound t i p f = some T') : UpdatedAt T T' t i p f := by
  unfold updateFound at h
  obtain ⟨r, hr, h⟩ := Option.bind_eq_some_iff.1 h
  split at h
  · cases h
  · rename_i hlock
    rw [Bool.not_eq_true] at hlock
    have hfree : ∀ u, u ≠ t → T.own u i = none := fun u hu => by
      rw [own, hr, Option.bind_some, VersionedRow.ownBy_of_not_locked hlock hu]
    have hseen : T.seen t i = r.seenBy t := by rw [seen_eq, hr, Option.bind_some]
    split at h
    · rename_i v hv
      obtain ⟨hvseen, hp⟩ := Option.filter_eq_some_iff.1 hv
      cases h
      have hlen : i < T.length := (List.getElem?_eq_some_iff.1 hr).1
      have hself : (T.set i { r with pending := some (t, f v) })[i]? =
          some { r with pending := some (t, f v) } := by
        rw [List.getElem?_set_self hlen]
      have hother : ∀ j, j ≠ i → (T.set i { r with pending := some (t, f v) })[j]? = T[j]? :=
        fun j hj => List.getElem?_set_ne (Ne.symm hj)
      have hown : ∀ u, VersionedRow.ownBy { r with pending := some (t, f v) } u =
          if u = t then some (f v) else none := fun u => by
        by_cases hu : t = u
        · simp [VersionedRow.ownBy, hu]
        · simp [VersionedRow.ownBy, hu, Ne.symm hu]
      refine
        { com := fun j => ?_, other := fun u j hu => ?_, free := hfree
          elsewhere := fun j hj => ?_, written := fun w hw _ => ?_, skipped := fun hskip => ?_ }
      · by_cases hj : j = i
        · subst hj
          rw [TxTable.com, TxTable.com, hself, hr]
          rfl
        · rw [TxTable.com, TxTable.com, hother j hj]
      · by_cases hj : j = i
        · subst hj
          rw [hfree u hu, own, hself, Option.bind_some, hown, if_neg hu]
        · rw [own, own, hother j hj]
      · rw [own, own, hother j hj]
      · rw [hseen, hvseen, Option.some.injEq] at hw
        rw [own, hself, Option.bind_some, hown, if_pos rfl, hw]
      · have hno := hskip v (hseen.trans hvseen)
        rw [hp] at hno
        cases hno
    · rename_i hv
      cases h
      have hno : ∀ v, T.seen t i = some v → p v = false := by
        intro v hvseen
        rw [hseen] at hvseen
        by_contra hp
        rw [hvseen, Option.filter_some, if_pos (Bool.not_eq_false _ ▸ hp)] at hv
        cases hv
      refine
        { com := fun _ => rfl, other := fun _ _ _ => rfl, free := hfree
          elsewhere := fun _ _ => rfl, written := fun v hvseen hp => ?_, skipped := fun _ => rfl }
      rw [hno v hvseen] at hp
      cases hp

/-! ### Insertions -/

/-- A row written at the end of a table, by a transaction that has inserted it. -/
theorem own_append (T : TxTable α) (t u i : ℕ) (v : α) :
    TxTable.own (T ++ [⟨none, some (t, v)⟩]) u i =
      if u = t ∧ i = T.length then some v else T.own u i := by
  unfold own
  rcases Nat.lt_trichotomy i T.length with hlt | heq | hgt
  · rw [List.getElem?_append_left hlt, if_neg (fun h => hlt.ne h.2)]
  · subst heq
    rw [List.getElem?_append_right le_rfl, Nat.sub_self, List.getElem?_eq_none le_rfl]
    by_cases hu : u = t
    · simp [VersionedRow.ownBy, hu]
    · simp [VersionedRow.ownBy, hu, Ne.symm hu]
  · have hnone : (T ++ [⟨none, some (t, v)⟩])[i]? = none :=
      List.getElem?_eq_none (by rw [List.length_append, List.length_singleton]; omega)
    rw [hnone, List.getElem?_eq_none hgt.le, if_neg (fun h => hgt.ne' h.2)]

theorem com_append (T : TxTable α) (t i : ℕ) (v : α) :
    TxTable.com (T ++ [⟨none, some (t, v)⟩]) i = T.com i := by
  unfold com
  rcases Nat.lt_trichotomy i T.length with hlt | heq | hgt
  · rw [List.getElem?_append_left hlt]
  · subst heq
    rw [List.getElem?_append_right le_rfl, Nat.sub_self, List.getElem?_eq_none le_rfl]
    rfl
  · have hnone : (T ++ [⟨none, some (t, v)⟩])[i]? = none :=
      List.getElem?_eq_none (by rw [List.length_append, List.length_singleton]; omega)
    rw [hnone, List.getElem?_eq_none hgt.le]

/-! ### Values of a row -/

/-- A value that a row has, or comes to have if the transaction that wrote it commits. -/
def Has (T : TxTable α) (i : ℕ) (v : α) : Prop :=
  T.com i = some v ∨ ∃ u, T.own u i = some v

theorem has_of_seen (h : T.seen t i = some v) : T.Has i v := by
  cases hown : T.own t i with
  | none => exact .inl (seen_of_not hown ▸ h)
  | some w =>
    rw [seen_of_own hown] at h
    exact .inr ⟨t, hown.trans h⟩

theorem Has.of_commit (h : (T.commit t).Has i v) : T.Has i v := by
  rcases h with h | ⟨u, h⟩
  · exact has_of_seen (com_commit T t i ▸ h)
  · rw [own_commit] at h
    split at h
    · cases h
    · exact .inr ⟨u, h⟩

theorem Has.of_abort (h : (T.abort t).Has i v) : T.Has i v := by
  rcases h with h | ⟨u, h⟩
  · exact .inl (com_abort T t i ▸ h)
  · rw [own_abort] at h
    split at h
    · cases h
    · exact .inr ⟨u, h⟩

theorem Has.of_append {w : α} (h : TxTable.Has (T ++ [⟨none, some (t, w)⟩]) i v) :
    T.Has i v ∨ (i = T.length ∧ v = w) := by
  rcases h with h | ⟨u, h⟩
  · exact .inl (.inl (com_append T t i w ▸ h))
  · rw [own_append] at h
    split at h
    · rename_i hlast
      exact .inr ⟨hlast.2, (Option.some.inj h).symm⟩
    · exact .inl (.inr ⟨u, h⟩)

/-- The values that a table has are those of its rows. -/
theorem Has.mem_values (h : T.Has i v) : ∃ r ∈ T, v ∈ r.values := by
  rcases h with h | ⟨u, h⟩
  · obtain ⟨r, hr, hv⟩ := Option.bind_eq_some_iff.1 h
    exact ⟨r, List.mem_of_getElem? hr, VersionedRow.mem_values.2 (.inl hv)⟩
  · obtain ⟨r, hr, hv⟩ := Option.bind_eq_some_iff.1 h
    exact ⟨r, List.mem_of_getElem? hr,
      VersionedRow.mem_values.2 (.inr ⟨u, VersionedRow.ownBy_eq_some.1 hv⟩)⟩

end TxTable

/-! ### What one transaction reads -/

/-- A table as it is to one transaction: what is committed, and what it has written itself. -/
structure Sight (α : Type*) where
  com : ℕ → Option α
  own : ℕ → Option α

namespace Sight

variable {α : Type*} {s s' : Sight α} {i j : ℕ} {p : α → Bool} {f : α → α} {v w : α}

/-- What it reads at a row. -/
def seen (s : Sight α) (i : ℕ) : Option α :=
  (s.own i).orElse fun _ => s.com i

theorem seen_of_own (h : s.own i = some v) : s.seen i = some v := by
  rw [seen, h, Option.orElse_some]

theorem seen_of_not (h : s.own i = none) : s.seen i = s.com i := by
  rw [seen, h, Option.orElse_none]

theorem seen_cases (h : s.seen i = some v) :
    s.own i = some v ∨ (s.own i = none ∧ s.com i = some v) := by
  cases hown : s.own i with
  | none => exact .inr ⟨rfl, seen_of_not hown ▸ h⟩
  | some w => exact .inl ((seen_of_own hown).symm.trans h)

/-- What an update at a row does to the transaction's own sight. -/
structure Updated (s s' : Sight α) (i : ℕ) (p : α → Bool) (f : α → α) : Prop where
  com : s'.com = s.com
  elsewhere : ∀ j, j ≠ i → s'.own j = s.own j
  written : ∀ v, s.seen i = some v → p v = true → s'.own i = some (f v)
  skipped : (∀ v, s.seen i = some v → p v = false) → s'.own i = s.own i

/-- A row's own value is an old one, or what was made of the value that was read. -/
theorem Updated.own_cases (h : Updated s s' i p f) (hw : s'.own j = some w) :
    s.own j = some w ∨ (j = i ∧ ∃ v, s.seen i = some v ∧ p v = true ∧ w = f v) := by
  by_cases hj : j = i
  · subst hj
    by_cases hp : ∃ v, s.seen j = some v ∧ p v = true
    · obtain ⟨v, hv, hp⟩ := hp
      rw [h.written v hv hp] at hw
      exact .inr ⟨rfl, v, hv, hp, (Option.some.inj hw).symm⟩
    · rw [h.skipped fun v hv => Bool.not_eq_true _ ▸ fun hpv => hp ⟨v, hv, hpv⟩] at hw
      exact .inl hw
  · exact .inl (h.elsewhere j hj ▸ hw)

/-- What is read of a row afterwards is what was read before, unless the condition held of it, or
what was made of that. -/
theorem Updated.seen_cases (h : Updated s s' i p f) (hw : s'.seen j = some w) :
    (s.seen j = some w ∧ (j = i → p w = false)) ∨
      (j = i ∧ ∃ v, s.seen i = some v ∧ p v = true ∧ w = f v) := by
  by_cases hj : j = i
  · subst hj
    by_cases hp : ∃ v, s.seen j = some v ∧ p v = true
    · obtain ⟨v, hv, hp⟩ := hp
      rw [seen_of_own (h.written v hv hp)] at hw
      exact .inr ⟨rfl, v, hv, hp, (Option.some.inj hw).symm⟩
    · have hno : ∀ v, s.seen j = some v → p v = false := fun v hv =>
        Bool.not_eq_true _ ▸ fun hpv => hp ⟨v, hv, hpv⟩
      have hsame : s'.seen j = s.seen j := by rw [seen, seen, h.skipped hno, h.com]
      exact .inl ⟨hsame ▸ hw, fun _ => hno w (hsame ▸ hw)⟩
  · have hsame : s'.seen j = s.seen j := by rw [seen, seen, h.elsewhere j hj, h.com]
    exact .inl ⟨hsame ▸ hw, fun hji => absurd hji hj⟩

/-- A row that is read is read afterwards as it was, or as it was written. -/
theorem Updated.seen_kept (h : Updated s s' i p f) (hv : s.seen j = some v) :
    s'.seen j = some v ∨ s'.seen j = some (f v) := by
  by_cases hj : j = i ∧ p v = true
  · obtain ⟨rfl, hp⟩ := hj
    exact .inr (seen_of_own (h.written v hv hp))
  · have hown : s'.own j = s.own j := by
      by_cases hji : j = i
      · subst hji
        refine h.skipped fun w hw => ?_
        obtain rfl : v = w := Option.some.inj (hv.symm.trans hw)
        exact Bool.not_eq_true _ ▸ fun hp => hj ⟨rfl, hp⟩
      · exact h.elsewhere j hji
    exact .inl (by rw [seen, hown, h.com]; exact hv)

/-- What the transaction had written stays written, if not overwritten. -/
theorem Updated.own_kept (h : Updated s s' i p f) (hv : s.own j = some v) :
    s'.own j = some v ∨ (j = i ∧ s'.own j = some (f v)) := by
  by_cases hj : j = i
  · subst hj
    by_cases hp : p v = true
    · exact .inr ⟨rfl, h.written v (seen_of_own hv) hp⟩
    · refine .inl ((h.skipped fun w hw => ?_).trans hv)
      rw [seen_of_own hv, Option.some.injEq] at hw
      exact hw ▸ Bool.not_eq_true _ ▸ hp
  · exact .inl ((h.elsewhere j hj).trans hv)

end Sight

namespace TxTable

variable {α : Type*} {T T' : TxTable α} {t u i : ℕ} {p : α → Bool} {f : α → α}

/-- The table as it is to a transaction. -/
def sight (T : TxTable α) (t : ℕ) : Sight α where
  com := T.com
  own := T.own t

theorem sight_updateFound (h : T.updateFound t i p f = some T') :
    Sight.Updated (T.sight t) (T'.sight t) i p f :=
  have hup := updateFound_eq_some h
  { com := funext hup.com
    elsewhere := hup.elsewhere
    written := hup.written
    skipped := hup.skipped }

/-- The others see nothing of an update. -/
theorem sight_updateFound_of_ne (h : T.updateFound t i p f = some T') (hu : u ≠ t) :
    T'.sight u = T.sight u := by
  have hup := updateFound_eq_some h
  rw [sight, sight, funext hup.com, funext fun j => hup.other u j hu]

/-- A row that another transaction has written is to the transaction as it is committed. -/
theorem sight_seen_of_other {v : α} (h : T.own u i = some v) (hu : u ≠ t) :
    (T.sight t).seen i = T.com i :=
  Sight.seen_of_not (own_eq_none_of_own h (Ne.symm hu))

theorem com_commit_eq (T : TxTable α) (t : ℕ) : (T.commit t).com = (T.sight t).seen :=
  funext (com_commit T t)

theorem sight_commit_of_ne (T : TxTable α) (hu : u ≠ t) :
    (T.commit t).sight u = ⟨(T.sight t).seen, (T.sight u).own⟩ := by
  rw [sight, funext (com_commit T t), funext fun i => (own_commit T t u i).trans (if_neg hu)]
  rfl

theorem sight_abort_of_ne (T : TxTable α) (hu : u ≠ t) : (T.abort t).sight u = T.sight u := by
  rw [sight, sight, funext (com_abort T t),
    funext fun i => (own_abort T t u i).trans (if_neg hu)]

theorem sight_append_of_ne (T : TxTable α) (v : α) (hu : u ≠ t) :
    TxTable.sight (T ++ [⟨none, some (t, v)⟩]) u = T.sight u := by
  rw [sight, sight, funext fun i => com_append T t i v,
    funext fun i => (own_append T t u i v).trans (if_neg fun h => hu h.1)]

/-- The values of the rows after an update. -/
theorem Has.of_updateFound (h : T.updateFound t i p f = some T') {j : ℕ} {w : α}
    (hw : T'.Has j w) : T.Has j w ∨ (j = i ∧ ∃ v, T.Has i v ∧ w = f v) := by
  have hup := updateFound_eq_some h
  rcases hw with hw | ⟨u, hw⟩
  · exact .inl (.inl (hup.com j ▸ hw))
  · by_cases hu : u = t
    · subst hu
      rcases (sight_updateFound h).own_cases hw with hold | ⟨hj, v, hv, -, rfl⟩
      · exact .inl (.inr ⟨u, hold⟩)
      · exact .inr ⟨hj, v, has_of_seen hv, rfl⟩
    · exact .inl (.inr ⟨u, hup.other u j hu ▸ hw⟩)

end TxTable

end Foundations
