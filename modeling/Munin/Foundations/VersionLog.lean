import Mathlib.Data.List.Nodup
import Mathlib.Data.List.Range
import Mathlib.Data.Nat.Notation

/-!
# A row with a log of its versions

A row is kept together with snapshots of the versions that it has had, which a unique index keeps
from repeating a number. Transactions read what is committed, and what they have written themselves.
The first write of a transaction locks the row until it ends; a write waits for the lock, and then
acts on what is committed by that time.

* **`VersionLog`** — the row, the log, and what the holder of the lock has written.
* **`update`, `delete`, `record`** — the statements; `commit` and `abort` end a transaction.
* **`Sound`** — the log has the versions from the first to that of the row, which is the last.
* **`eq_of_record`** — a transaction that records the version after the one that it read has
  read the latest one.
* **`Sound.commit`** — if it also wrote that version, the log stays sound.
-/

namespace Foundations

/-- What the transaction that holds the lock has done: the row as it wrote it, or `none` if it
deleted it, and the snapshot that it inserted. -/
structure RowLock (α ρ : Type*) where
  holder : ℕ
  value : Option α
  entry : Option ρ := none

/-- A row and its log, as committed, and the lock of the row. -/
structure VersionLog (α ρ : Type*) where
  row : Option α
  log : List ρ
  lock : Option (RowLock α ρ) := none

namespace VersionLog

variable {α ρ : Type*} (L : VersionLog α ρ) (t : ℕ)

/-- The row as a transaction sees it. -/
def read : Option α :=
  match L.lock with
  | some l => if l.holder = t then l.value else L.row
  | none => L.row

/-- The log as a transaction sees it. -/
def readLog : List ρ :=
  match L.lock with
  | some l => if l.holder = t then L.log ++ l.entry.toList else L.log
  | none => L.log

/-- A transaction need not wait for the lock. -/
def free : Bool :=
  L.lock.all (·.holder = t)

/-- `UPDATE .. WHERE id = ..`: the row as written, or `none` if there is none to update. -/
def update (f : α → α) : Option (VersionLog α ρ × Option α) :=
  if L.free t then
    match L.read t with
    | some a => some ({ L with lock := some ⟨t, some (f a), L.lock.bind (·.entry)⟩ }, some (f a))
    | none => some (L, none)
  else none

/-- `DELETE .. WHERE id = ..`, and whether there was a row to delete. -/
def delete : Option (VersionLog α ρ × Bool) :=
  if L.free t then
    match L.read t with
    | some _ => some ({ L with lock := some ⟨t, none, none⟩ }, true)
    | none => some (L, false)
  else none

/-- The insertion of a snapshot by the transaction that holds the lock, and whether the unique index
admits it. -/
def record (number : ρ → ℕ) (r : ρ) : Option (VersionLog α ρ × Bool) :=
  match L.lock with
  | some l =>
    if l.holder = t then
      if (L.readLog t).any (number · = number r) then some (L, false)
      else some ({ L with lock := some { l with entry := some r } }, true)
    else none
  | none => none

/-- The end of a transaction. With the row, its snapshots go. -/
def commit : VersionLog α ρ :=
  match L.lock with
  | some l =>
    if l.holder = t then
      { row := l.value, log := if l.value.isSome then L.log ++ l.entry.toList else [] }
    else L
  | none => L

/-- A transaction that is taken back. -/
def abort : VersionLog α ρ :=
  match L.lock with
  | some l => if l.holder = t then { L with lock := none } else L
  | none => L

variable {L t}

/-! ### What the statements do -/

/-- A transaction that does not hold the lock. -/
def Outside (L : VersionLog α ρ) (t : ℕ) : Prop :=
  ∀ l ∈ L.lock, l.holder ≠ t

theorem Outside.read_eq (h : L.Outside t) : L.read t = L.row := by
  unfold read
  split
  · rename_i l hl
    exact if_neg (h l hl)
  · rfl

theorem Outside.readLog_eq (h : L.Outside t) : L.readLog t = L.log := by
  unfold readLog
  split
  · rename_i l hl
    exact if_neg (h l hl)
  · rfl

variable {L' : VersionLog α ρ} {done : Bool}

/-- Where a transaction may write, nobody else holds the lock. -/
theorem holder_of_free (h : L.free t = true) {l} (hl : L.lock = some l) : l.holder = t := by
  rw [free, hl, Option.all_some, decide_eq_true_eq] at h
  exact h

/-- An update by a transaction that does not hold the lock yet: nobody does, and it acts on what is
committed. -/
theorem Outside.update_eq_some (h : L.Outside t) {f : α → α}
    {written : Option α} (hu : L.update t f = some (L', written)) :
    L.lock = none ∧ written = L.row.map f ∧
      L' = { L with lock := L.row.map fun a => ⟨t, some (f a), none⟩ } := by
  unfold update at hu
  split at hu
  · rename_i hfree
    have hnone : L.lock = none :=
      Option.eq_none_iff_forall_ne_some.2 fun l hl => h l hl (holder_of_free hfree hl)
    rw [h.read_eq] at hu
    obtain ⟨row, log, lock⟩ := L
    obtain rfl : lock = none := hnone
    cases row with
    | none =>
      cases hu
      exact ⟨rfl, rfl, rfl⟩
    | some a =>
      cases hu
      exact ⟨rfl, rfl, rfl⟩
  · cases hu

/-- A deletion by a transaction that does not hold the lock yet. -/
theorem Outside.delete_eq_some (h : L.Outside t) (hd : L.delete t = some (L', done)) :
    L.lock = none ∧ done = L.row.isSome ∧
      L' = { L with lock := L.row.map fun _ => ⟨t, none, none⟩ } := by
  unfold delete at hd
  split at hd
  · rename_i hfree
    have hnone : L.lock = none :=
      Option.eq_none_iff_forall_ne_some.2 fun l hl => h l hl (holder_of_free hfree hl)
    rw [h.read_eq] at hd
    obtain ⟨row, log, lock⟩ := L
    obtain rfl : lock = none := hnone
    cases row with
    | none =>
      cases hd
      exact ⟨rfl, rfl, rfl⟩
    | some a =>
      cases hd
      exact ⟨rfl, rfl, rfl⟩
  · cases hd

/-- An update leaves what is committed; a lock is taken only of a row that is there, and not from
another transaction. -/
theorem update_keeps {f : α → α} {written : Option α}
    (h : L.update t f = some (L', written)) : L'.row = L.row ∧
      ((∀ l ∈ L.lock, L.row.isSome = true) → ∀ l ∈ L'.lock, L.row.isSome = true) ∧
        ∀ l, l.holder ≠ t → L.lock = some l → L'.lock = some l := by
  unfold update at h
  split at h
  · rename_i hfree
    have hothers : ∀ l, l.holder ≠ t → L.lock ≠ some l :=
      fun l hne hl => hne (holder_of_free hfree hl)
    split at h
    · rename_i a hread
      cases h
      refine ⟨rfl, fun hlocked l _ => ?_, fun l hne hl => absurd hl (hothers l hne)⟩
      cases hlock : L.lock with
      | none =>
        have hrow : L.row = some a := by
          rw [read, hlock] at hread
          exact hread
        rw [hrow]
        rfl
      | some m => exact hlocked m hlock
    · cases h
      exact ⟨rfl, id, fun _ _ => id⟩
  · cases h

/-- So does a deletion; of a row that is there, it takes the lock. -/
theorem delete_keeps (h : L.delete t = some (L', done))
    (hrow : L.row.isSome = true) : L'.row = L.row ∧ (∃ e, L'.lock = some ⟨t, none, e⟩) ∧
      ∀ l, l.holder ≠ t → L.lock = some l → L'.lock = some l := by
  unfold delete at h
  split at h
  · rename_i hfree
    have hothers : ∀ l, l.holder ≠ t → L.lock ≠ some l :=
      fun l hne hl => hne (holder_of_free hfree hl)
    split at h
    · cases h
      exact ⟨rfl, ⟨none, rfl⟩, fun l hne hl => absurd hl (hothers l hne)⟩
    · rename_i hread
      cases h
      refine ⟨rfl, ?_, fun _ _ => id⟩
      cases hlock : L.lock with
      | none =>
        have hgone : L.row = none := by
          rw [read, hlock] at hread
          exact hread
        rw [hgone] at hrow
        cases hrow
      | some m =>
        -- the row that the transaction sees is gone because it has deleted it
        obtain ⟨holder, value, entry⟩ := m
        rw [free, hlock, Option.all_some, decide_eq_true_eq] at hfree
        obtain rfl : holder = t := hfree
        rw [read, hlock] at hread
        obtain rfl : value = none := (if_pos rfl).symm.trans hread
        exact ⟨entry, rfl⟩
  · cases h

/-- Recording leaves what is committed, and is for the holder of the lock only. -/
theorem record_keeps {number : ρ → ℕ} {r : ρ}
    (h : L.record t number r = some (L', done)) : L'.row = L.row ∧
      ((∀ l ∈ L.lock, L.row.isSome = true) → ∀ l ∈ L'.lock, L.row.isSome = true) ∧
        ∀ l, l.holder ≠ t → L.lock = some l → L'.lock = some l := by
  unfold record at h
  split at h
  · rename_i m hlock
    split at h
    · rename_i hholder
      have hothers : ∀ l, l.holder ≠ t → L.lock ≠ some l := by
        intro l hne hl
        obtain rfl := Option.some.inj (hlock.symm.trans hl)
        exact hne hholder
      split at h
      · cases h
        exact ⟨rfl, id, fun _ _ => id⟩
      · cases h
        exact ⟨rfl, fun hlocked _ _ => hlocked m hlock, fun l hne hl => absurd hl (hothers l hne)⟩
    · cases h
  · cases h

/-- What recording a snapshot does, for the holder of the lock that has recorded none. -/
theorem record_eq_some {number : ρ → ℕ} {r : ρ} {value : Option α}
    (hlock : L.lock = some ⟨t, value, none⟩) (h : L.record t number r = some (L', done)) :
    (done = false ∧ L' = L) ∨ (done = true ∧ L' = { L with lock := some ⟨t, value, some r⟩ } ∧
      ∀ e ∈ L.log, number e ≠ number r) := by
  unfold record readLog at h
  rw [hlock] at h
  simp only [if_true, Option.toList_none, List.append_nil] at h
  split at h
  · cases h
    exact .inl ⟨rfl, rfl⟩
  · rename_i hfresh
    cases h
    exact .inr ⟨rfl, rfl, fun e he heq =>
      hfresh (List.any_eq_true.2 ⟨e, he, decide_eq_true heq⟩)⟩

theorem commit_of_lock {value : Option α} {entry : Option ρ}
    (hlock : L.lock = some ⟨t, value, entry⟩) : L.commit t =
      { row := value, log := if value.isSome then L.log ++ entry.toList else [] } := by
  simp [commit, hlock]

/-- Taking back changes nothing that is committed. -/
@[simp]
theorem abort_row (L : VersionLog α ρ) (t : ℕ) : (L.abort t).row = L.row := by
  unfold abort
  split
  · split <;> rfl
  · rfl

@[simp]
theorem abort_log (L : VersionLog α ρ) (t : ℕ) : (L.abort t).log = L.log := by
  unfold abort
  split
  · split <;> rfl
  · rfl

/-- After it, the transaction holds no lock, and that of another one stays. -/
theorem mem_lock_abort {l : RowLock α ρ} :
    l ∈ (L.abort t).lock ↔ l ∈ L.lock ∧ l.holder ≠ t := by
  unfold abort
  cases hl : L.lock with
  | none => simp [hl]
  | some m =>
    by_cases hm : m.holder = t
    · simp only [hm, if_true, Option.mem_def, reduceCtorEq, Option.some.injEq, false_iff, not_and]
      rintro rfl
      exact fun hne => hne hm
    · simp only [hm, if_false, hl, Option.mem_def, Option.some.injEq]
      constructor
      · rintro rfl
        exact ⟨rfl, hm⟩
      · exact fun h => h.1

/-- Nothing has changed for a transaction: neither what is committed nor whether it holds the
lock. -/
structure Same (L L' : VersionLog α ρ) (t : ℕ) : Prop where
  row : L'.row = L.row
  log : L'.log = L.log
  lock : ∀ l, l.holder = t → (L'.lock = some l ↔ L.lock = some l)

theorem Outside.same (h : L.Outside t) (hsame : Same L L' t) : L'.Outside t := by
  intro l hl ht
  exact h l ((hsame.lock l ht).1 hl) ht

/-- Another transaction takes the lock that nobody has. -/
theorem same_of_lock {u : ℕ} {value : Option α} {entry : Option ρ} (hfree : L.Outside u)
    (hu : t ≠ u) : Same L { L with lock := some ⟨t, value, entry⟩ } u where
  row := rfl
  log := rfl
  lock l hl := by
    constructor
    · intro h
      obtain rfl := Option.some.inj h
      exact absurd hl hu
    · intro h
      exact absurd hl (hfree l h)

/-- Another transaction is taken back. -/
theorem same_abort {u : ℕ} (hu : u ≠ t) : Same L (L.abort t) u where
  row := abort_row L t
  log := abort_log L t
  lock l hl := by
    rw [← Option.mem_def, mem_lock_abort, Option.mem_def, and_iff_left_iff_imp]
    intro _
    rw [hl]
    exact hu

theorem outside_abort (L : VersionLog α ρ) (t : ℕ) : (L.abort t).Outside t := by
  intro l hl
  exact (mem_lock_abort.1 hl).2

theorem outside_of_lock {u : ℕ} {value : Option α} {entry : Option ρ}
    (hlock : L.lock = some ⟨t, value, entry⟩) (hu : t ≠ u) : L.Outside u := by
  intro l hl
  obtain rfl := Option.some.inj (hlock.symm.trans hl)
  exact hu

/-! ### Sound logs -/

/-- The log has the versions from the first to that of the row, and the row's is the last. -/
structure Sound (number : ρ → ℕ) (snap : α → ρ) (L : VersionLog α ρ) : Prop where
  numbers : ∀ a ∈ L.row, L.log.map number = List.range' 1 (number (snap a))
  newest : ∀ a ∈ L.row, L.log.getLast? = some (snap a)

/-- What a transaction has read is not newer than the row, and is the row if it is as new. -/
def Behind (number : ρ → ℕ) (snap : α → ρ) (L : VersionLog α ρ) (a : α) : Prop :=
  ∀ b ∈ L.row, number (snap a) ≤ number (snap b) ∧ (number (snap a) = number (snap b) → a = b)

section Sound

variable {number : ρ → ℕ} {snap : α → ρ}

variable {a : α} {L' : VersionLog α ρ}

/-- What is committed has been read. -/
theorem behind_of_row (h : L.row = some a) : Behind number snap L a := by
  intro b hb
  obtain rfl : a = b := Option.some.inj (h.symm.trans hb)
  exact ⟨le_rfl, fun _ => rfl⟩

/-- The numbers of a sound log. -/
theorem Sound.mem_numbers (h : Sound number snap L) (ha : L.row = some a) {n : ℕ} :
    (∃ e ∈ L.log, number e = n) ↔ 1 ≤ n ∧ n ≤ number (snap a) := by
  have hnumbers := h.numbers a ha
  rw [← List.mem_map, hnumbers, List.mem_range'_1]
  omega

/-- **A version is recorded once.** A transaction that records the version after the one that it
read has read the row as it is. -/
theorem eq_of_record (h : Sound number snap L) {b : α} (ha : L.row = some a)
    (hb : Behind number snap L b) {n : ℕ} (hn : n = number (snap b) + 1)
    (hfresh : ∀ e ∈ L.log, number e ≠ n) : b = a := by
  obtain ⟨hle, heq⟩ := hb a ha
  refine heq ?_
  by_contra hne
  obtain ⟨e, he, hnum⟩ := (h.mem_numbers ha).2
    (show 1 ≤ n ∧ n ≤ number (snap a) from ⟨by omega, by omega⟩)
  exact hfresh e he hnum

/-- The log stays sound if the version after that of the row is committed with its snapshot. -/
theorem Sound.commit (h : Sound number snap L) {u : α} (ha : L.row = some a)
    (hlock : L.lock = some ⟨t, some u, some (snap u)⟩)
    (hnext : number (snap u) = number (snap a) + 1) : Sound number snap (L.commit t) := by
  have hcommit : L.commit t = { row := some u, log := L.log ++ [snap u] } := commit_of_lock hlock
  rw [hcommit]
  refine ⟨fun b hb => ?_, fun b hb => ?_⟩
  · obtain rfl := Option.some.inj hb
    rw [List.map_append, h.numbers a ha, hnext, List.map_singleton, hnext, List.range'_concat,
      Nat.one_mul, Nat.add_comm 1]
  · obtain rfl := Option.some.inj hb
    exact List.getLast?_concat

/-- Without a row, there is nothing that a log could miss. -/
theorem sound_of_row_none (h : L.row = none) : Sound number snap L := by
  refine ⟨fun a ha => ?_, fun a ha => ?_⟩
  · rw [h] at ha
    cases ha
  · rw [h] at ha
    cases ha

/-- A statement of an open transaction keeps what is committed. -/
theorem Sound.of_eq (h : Sound number snap L) (hrow : L'.row = L.row)
    (hlog : L'.log = L.log) : Sound number snap L' := by
  obtain ⟨hnumbers, hnewest⟩ := h
  refine ⟨?_, ?_⟩
  · rwa [hrow, hlog]
  · rwa [hrow, hlog]

theorem Behind.of_eq (h : Behind number snap L a)
    (hrow : L'.row = L.row) : Behind number snap L' a := by
  unfold Behind
  rwa [hrow]

/-- What was read stays behind a newer row. -/
theorem Behind.of_newer {b u : α} (h : Behind number snap L a)
    (hb : L.row = some b) (hu : L'.row = some u)
    (hnext : number (snap u) = number (snap b) + 1) : Behind number snap L' a := by
  intro v hv
  obtain rfl : u = v := Option.some.inj (hu.symm.trans hv)
  obtain ⟨hle, -⟩ := h b hb
  exact ⟨by omega, fun heq => by omega⟩

end Sound

end VersionLog

end Foundations
