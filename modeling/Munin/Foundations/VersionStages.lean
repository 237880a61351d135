import Munin.Foundations.VersionLog
import Mathlib.Logic.Function.Basic

/-!
# Transactions on a row with a log of its versions

A transaction reads the row, makes the next version of what it has read, updates the row, and
records a snapshot; or it reads the row and deletes it. Nothing is locked between the read and the
first write.

* **`Writes`** — what the transactions write, and the numbers that it has.
* **`Stage`** — how far a transaction has come; `StageOk` is what holds of the store then.
* **`Coherent`** — the invariant: the log is sound, and every transaction is at its stage.
* **`Coherent.update`, `Coherent.record`, `Coherent.commit`** — the steps of a writer keep it. A
  snapshot is recorded only by one that has read the latest version.
* **`Coherent.delete`, `Coherent.commitDelete`** — so do those of a deletion that finds the row as
  it has read it.
-/

namespace Foundations

namespace VersionLog

/-- What transactions write: `sets w e c u` says that the write `w`, for a row that was read as `e`,
makes `u` of the row `c`; `entry w e u` is the snapshot that goes with it, and `admits w e` is what
is known of a row that was read for `w`. -/
structure Writes (α ρ ω : Type*) where
  number : ρ → ℕ
  snap : α → ρ
  sets : ω → α → α → α → Prop
  entry : ω → α → α → ρ
  admits : ω → α → Prop
  number_snap : ∀ {w e c u}, sets w e c u → number (snap u) = number (snap e) + 1
  number_entry : ∀ {w e c u}, sets w e c u → number (entry w e u) = number (snap e) + 1
  entry_eq : ∀ {w e u}, sets w e e u → entry w e u = snap u

/-- How far a transaction has come. -/
inductive Stage (ω α : Type*) where
  | outside
  | loaded (w : ω) (existing : α)
  | written (w : ω) (existing updated : α)
  | recorded (w : ω) (existing updated : α)
  | read (existing : α)
  | removed (existing : α)

variable {α ρ ω : Type*} (W : Writes α ρ ω)

/-- What holds of the store for a transaction at a stage. -/
def StageOk (L : VersionLog α ρ) (t : ℕ) : Stage ω α → Prop
  | .outside => L.Outside t
  | .loaded w e => L.Outside t ∧ L.Behind W.number W.snap e ∧ W.admits w e
  | .written w e u => L.lock = some ⟨t, some u, none⟩ ∧ L.Behind W.number W.snap e ∧
      W.admits w e ∧ ∃ c, L.row = some c ∧ W.sets w e c u
  | .recorded w e u => L.lock = some ⟨t, some u, some (W.entry w e u)⟩ ∧ L.row = some e ∧
      W.admits w e ∧ W.sets w e e u
  | .read e => L.Outside t ∧ L.Behind W.number W.snap e
  | .removed e => L.lock = some ⟨t, none, none⟩ ∧ L.row = some e

/-- The invariant of a store with the transactions on it. -/
structure Coherent (L : VersionLog α ρ) (stage : ℕ → Stage ω α) : Prop where
  sound : L.Sound W.number W.snap
  stages : ∀ t, StageOk W L t (stage t)

variable {W} {L L' : VersionLog α ρ} {stage : ℕ → Stage ω α} {t : ℕ} {p : Stage ω α}

theorem StageOk.same (h : StageOk W L t p) (hsame : Same L L' t) : StageOk W L' t p := by
  match p, h with
  | .outside, h => exact Outside.same (show L.Outside t from h) hsame
  | .loaded .., ⟨hout, hbehind, hadmits⟩ =>
    exact ⟨hout.same hsame, hbehind.of_eq hsame.row, hadmits⟩
  | .written .., ⟨hlock, hbehind, hadmits, c, hrow, hsets⟩ =>
    exact ⟨(hsame.lock _ rfl).2 hlock, hbehind.of_eq hsame.row, hadmits, c, hsame.row.trans hrow,
      hsets⟩
  | .recorded .., ⟨hlock, hrow, hadmits, hsets⟩ =>
    exact ⟨(hsame.lock _ rfl).2 hlock, hsame.row.trans hrow, hadmits, hsets⟩
  | .read _, ⟨hout, hbehind⟩ => exact ⟨hout.same hsame, hbehind.of_eq hsame.row⟩
  | .removed _, ⟨hlock, hrow⟩ => exact ⟨(hsame.lock _ rfl).2 hlock, hsame.row.trans hrow⟩

/-- A transaction that does not hold the lock, when the lock is free again and what it has read is
still behind the row. -/
theorem StageOk.released (h : StageOk W L t p) (hout : L.Outside t) (hfree : L'.lock = none)
    (hbehind : ∀ e, L.Behind W.number W.snap e → L'.Behind W.number W.snap e) :
    StageOk W L' t p := by
  have hout' : L'.Outside t := by
    intro l hl
    rw [hfree] at hl
    cases hl
  match p, h with
  | .outside, _ => exact hout'
  | .loaded .., ⟨_, hread, hadmits⟩ => exact ⟨hout', hbehind _ hread, hadmits⟩
  | .read _, ⟨_, hread⟩ => exact ⟨hout', hbehind _ hread⟩
  | .written .., ⟨hlock, _⟩ => exact absurd rfl (hout _ hlock)
  | .recorded .., ⟨hlock, _⟩ => exact absurd rfl (hout _ hlock)
  | .removed _, ⟨hlock, _⟩ => exact absurd rfl (hout _ hlock)

/-- What holds of the transactions after one has moved on. -/
theorem stages_update (hself : StageOk W L t p)
    (hothers : ∀ u, u ≠ t → StageOk W L u (stage u)) (u : ℕ) :
    StageOk W L u (Function.update stage t p u) := by
  by_cases hu : u = t
  · subst hu
    rw [Function.update_self]
    exact hself
  · rw [Function.update_of_ne hu]
    exact hothers u hu

/-- A transaction moves on, and the others see no change. -/
theorem Coherent.move (h : Coherent W L stage) (hrow : L'.row = L.row) (hlog : L'.log = L.log)
    (hsame : ∀ u, u ≠ t → Same L L' u) (hself : StageOk W L' t p) :
    Coherent W L' (Function.update stage t p) where
  sound := h.sound.of_eq hrow hlog
  stages := stages_update hself fun u hu => (h.stages u).same (hsame u hu)

/-- A transaction goes on without a statement that writes. -/
theorem Coherent.stay (h : Coherent W L stage) (hself : StageOk W L t p) :
    Coherent W L (Function.update stage t p) :=
  h.move rfl rfl (fun _ _ => ⟨rfl, rfl, fun _ _ => Iff.rfl⟩) hself

/-- A transaction is taken back. -/
theorem Coherent.rollback (h : Coherent W L stage) (t : ℕ) :
    Coherent W (L.abort t) (Function.update stage t .outside) :=
  h.move (abort_row L t) (abort_log L t) (fun _ hu => same_abort hu) (outside_abort L t)

section Writer

variable {w : ω} {e u : α}

/-- The update waits until nobody else has written, and acts on the row as it is then. -/
theorem Coherent.update (h : Coherent W L stage) (hstage : stage t = .loaded w e) {f : α → α}
    (hf : ∀ c, W.sets w e c (f c)) (hu : L.update t f = some (L', some u)) :
    Coherent W L' (Function.update stage t (.written w e u)) := by
  have hloaded := h.stages t
  rw [hstage] at hloaded
  obtain ⟨hout, hbehind, hadmits⟩ := hloaded
  obtain ⟨hfree, hwritten, rfl⟩ := hout.update_eq_some hu
  obtain ⟨c, hc, rfl⟩ := Option.map_eq_some_iff.1 hwritten.symm
  have hlock : (L.row.map fun a => (⟨t, some (f a), none⟩ : RowLock α ρ)) =
      some ⟨t, some (f c), none⟩ := by
    rw [hc, Option.map_some]
  rw [hlock]
  have hnobody : ∀ v, L.Outside v := by
    intro v l hl
    rw [hfree] at hl
    cases hl
  refine h.move rfl rfl (fun v hv => same_of_lock (hnobody v) hv.symm) ?_
  exact ⟨rfl, hbehind, hadmits, c, hc, hf c⟩

/-- **A snapshot is recorded only by a transaction that has read the latest version.** -/
theorem Coherent.record (h : Coherent W L stage) (hstage : stage t = .written w e u)
    (hr : L.record t W.number (W.entry w e u) = some (L', true)) :
    Coherent W L' (Function.update stage t (.recorded w e u)) := by
  have hwritten := h.stages t
  rw [hstage] at hwritten
  obtain ⟨hlock, hbehind, hadmits, c, hc, hsets⟩ := hwritten
  rcases record_eq_some hlock hr with ⟨hfalse, -⟩ | ⟨-, rfl, hfresh⟩
  · cases hfalse
  · obtain rfl : e = c := eq_of_record h.sound hc hbehind (W.number_entry hsets) hfresh
    refine h.move rfl rfl (fun v hv => ?_) ⟨rfl, hc, hadmits, hsets⟩
    exact same_of_lock (outside_of_lock hlock hv.symm) hv.symm

/-- A commit is of the version after the one that is there, which the transaction has read. -/
theorem Coherent.recorded (h : Coherent W L stage) (hstage : stage t = .recorded w e u) :
    L.row = some e ∧ (L.commit t).row = some u ∧ W.admits w e ∧ W.sets w e e u := by
  have hrecorded := h.stages t
  rw [hstage] at hrecorded
  obtain ⟨hlock, hrow, hadmits, hsets⟩ := hrecorded
  exact ⟨hrow, congrArg VersionLog.row (commit_of_lock hlock), hadmits, hsets⟩

theorem Coherent.commit (h : Coherent W L stage) (hstage : stage t = .recorded w e u) :
    Coherent W (L.commit t) (Function.update stage t .outside) := by
  obtain ⟨hrow, hrow', -, hsets⟩ := h.recorded hstage
  have hrecorded := h.stages t
  rw [hstage] at hrecorded
  have hlock := hrecorded.1
  have hnext := W.number_snap hsets
  have hfree : (L.commit t).lock = none := congrArg VersionLog.lock (commit_of_lock hlock)
  have hout : (L.commit t).Outside t := by
    intro l hl
    rw [hfree] at hl
    cases hl
  refine ⟨h.sound.commit hrow (W.entry_eq hsets ▸ hlock) hnext, stages_update hout fun v hv => ?_⟩
  exact (h.stages v).released (outside_of_lock hlock hv.symm) hfree fun a ha =>
    ha.of_newer hrow hrow' hnext

end Writer

section Deletion

variable {e : α}

/-- A deletion that finds the row in the version that it has read. -/
theorem Coherent.delete (h : Coherent W L stage) (hstage : stage t = .read e) {c : α}
    (hc : L.row = some c) (hversion : W.number (W.snap e) = W.number (W.snap c)) {done : Bool}
    (hd : L.delete t = some (L', done)) :
    Coherent W L' (Function.update stage t (.removed e)) := by
  have hread := h.stages t
  rw [hstage] at hread
  obtain ⟨hout, hbehind⟩ := hread
  obtain ⟨hfree, -, rfl⟩ := hout.delete_eq_some hd
  obtain rfl : e = c := (hbehind c hc).2 hversion
  have hlock : (L.row.map fun _ => (⟨t, none, none⟩ : RowLock α ρ)) = some ⟨t, none, none⟩ := by
    rw [hc, Option.map_some]
  rw [hlock]
  have hnobody : ∀ v, L.Outside v := by
    intro v l hl
    rw [hfree] at hl
    cases hl
  exact h.move rfl rfl (fun v hv => same_of_lock (hnobody v) hv.symm) ⟨rfl, hc⟩

theorem Coherent.commitDelete (h : Coherent W L stage) (hstage : stage t = .removed e) :
    Coherent W (L.commit t) (Function.update stage t .outside) := by
  have hremoved := h.stages t
  rw [hstage] at hremoved
  obtain ⟨hlock, -⟩ := hremoved
  have hcommit := commit_of_lock hlock
  have hrow : (L.commit t).row = none := congrArg VersionLog.row hcommit
  have hfree : (L.commit t).lock = none := congrArg VersionLog.lock hcommit
  have hout : (L.commit t).Outside t := by
    intro l hl
    rw [hfree] at hl
    cases hl
  refine ⟨sound_of_row_none hrow, stages_update hout fun v hv => ?_⟩
  refine (h.stages v).released (outside_of_lock hlock hv.symm) hfree fun a _ b hb => ?_
  rw [hrow] at hb
  cases hb

end Deletion

end VersionLog

end Foundations
