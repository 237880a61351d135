import Munin.Foundations.Machine
import Mathlib.Data.Nat.Notation
import Mathlib.Logic.Function.Basic

/-!
# Interleaved sessions over one store

A **session** is a transaction under read-committed isolation: a program point together with its
local variables, executing one atomic statement on the shared store at a time. Any number of
sessions is live at once, and between two statements of one session every other session may move.

* **`Sessions`** — the statements: `exec t p s` is what session `t` does next at program point `p`
  on the store `s`, and where it stands afterwards (`none`: it has ended, committed or refused).
* **`World`, `machine`** — the store with its live sessions, as a machine whose labels open a
  session or let one of them execute.
* **`run_live_eq`** — a session stands still while it does not move.
* **`reaches_outline`** — the proof rule: a store invariant and one assertion per program point,
  each correct along its own session and stable under the statements of every other one.
-/

namespace Foundations

/-- The sessions of a system over stores `σ`, with program points `π`. -/
structure Sessions (σ π : Type*) where
  /-- The program points at which a session may be opened. -/
  entry : π → Bool
  /-- The next statement of session `t` at point `p`: the new store and the point after it. -/
  exec : ℕ → π → σ → Option (σ × Option π)

namespace Sessions

/-- A store with the sessions live on it. -/
structure World (σ π : Type*) where
  /-- The committed data. -/
  store : σ
  /-- The program point of each live session. -/
  live : ℕ → Option π

/-- The moves of the system: a session is opened, or a live one executes its next statement. A
session whose transaction is abandoned is one that never moves again. -/
inductive Move (π : Type*) where
  /-- Session `t` is opened at the point `p`. -/
  | call (t : ℕ) (p : π)
  /-- Session `t` executes its next statement. -/
  | exec (t : ℕ)

variable {σ π : Type*}

/-- A world in which no session has been opened yet. -/
def World.idle (s : σ) : World σ π := ⟨s, fun _ => none⟩

variable (S : Sessions σ π)

/-- The interleaving machine of the sessions. -/
def machine : Machine (World σ π) (Move π) where
  step w
    | .call t p =>
      if S.entry p && (w.live t).isNone then
        some { w with live := Function.update w.live t (some p) }
      else none
    | .exec t =>
      (w.live t).bind fun p =>
        (S.exec t p w.store).map fun r => ⟨r.1, Function.update w.live t r.2⟩

variable {w w' : World σ π} {t : ℕ}

/-- What a call does: the session was not live, and only it changes. -/
theorem step_call {p : π} (h : S.machine.step w (.call t p) = some w') :
    S.entry p = true ∧ w.live t = none ∧
      w' = { w with live := Function.update w.live t (some p) } := by
  simp only [machine, Bool.and_eq_true, Option.isNone_iff_eq_none] at h
  split at h
  · rename_i hp
    exact ⟨hp.1, hp.2, (Option.some.inj h).symm⟩
  · cases h

/-- What a statement does: it acts on the store, and of the sessions only its own moves on. -/
theorem step_exec (h : S.machine.step w (.exec t) = some w') :
    ∃ p s' q, w.live t = some p ∧ S.exec t p w.store = some (s', q) ∧
      w' = ⟨s', Function.update w.live t q⟩ := by
  simp only [machine] at h
  obtain ⟨p, hp, h⟩ := Option.bind_eq_some_iff.1 h
  obtain ⟨r, hr, rfl⟩ := Option.map_eq_some_iff.1 h
  exact ⟨p, r.1, r.2, hp, hr, rfl⟩

/-- The session that moves. -/
def Move.session : Move π → ℕ
  | .call t _ => t
  | .exec t => t

/-- A run leaves the sessions that do not move in it where they are. -/
theorem run_live_eq {moves : List (Move π)}
    (ht : ∀ m ∈ moves, m.session ≠ t) (h : S.machine.run w moves = some w') :
    w'.live t = w.live t := by
  induction moves generalizing w with
  | nil =>
    obtain rfl : w = w' := Option.some.inj h
    rfl
  | cons m ms ih =>
    obtain ⟨v, hv, hrun⟩ := Option.bind_eq_some_iff.1 h
    have hm : t ≠ m.session := fun heq => ht m List.mem_cons_self heq.symm
    refine (ih (fun m' hm' => ht m' (List.mem_cons_of_mem _ hm')) hrun).trans ?_
    cases m with
    | call u p =>
      obtain ⟨-, -, rfl⟩ := S.step_call hv
      exact Function.update_of_ne hm _ _
    | exec u =>
      obtain ⟨p, s', q, -, -, rfl⟩ := S.step_exec hv
      exact Function.update_of_ne hm _ _

/-! ### The proof rule -/

/-- A guard on statements, read as a guard on the moves of the machine: opening a session is
always allowed. -/
def guard (ok : ℕ → π → σ → Prop) (w : World σ π) : Move π → Prop
  | .call _ _ => True
  | .exec t => ∀ p ∈ w.live t, ok t p w.store

instance (ok : ℕ → π → σ → Prop) [∀ t p s, Decidable (ok t p s)] (w : World σ π) :
    ∀ m : Move π, Decidable (guard ok w m)
  | .call _ _ => inferInstanceAs (Decidable True)
  | .exec t => inferInstanceAs (Decidable (∀ p ∈ w.live t, ok t p w.store))

/-- The worlds reached from an idle start by runs whose statements all meet the guard `ok`. -/
abbrev Reaches (start : σ → Prop) (ok : ℕ → π → σ → Prop) : World σ π → Prop :=
  S.machine.Reaches (fun w => ∃ s, start s ∧ w = .idle s) (guard ok)

/-- A **proof outline**: a store invariant `I`, an assertion `A t q` for session `t` standing at
`q` (`none`: not live), and the obligations that make them hold of every world reached under the
guard `ok`. -/
structure Outline (start : σ → Prop) (ok : ℕ → π → σ → Prop) (I : σ → Prop)
    (A : ℕ → Option π → σ → Prop) : Prop where
  /-- The invariant holds at the start, and so do the assertions of sessions that are not live. -/
  start : ∀ s, start s → I s ∧ ∀ t, A t none s
  /-- A session is opened at a point whose assertion holds. -/
  entry : ∀ t p s, S.entry p = true → I s → A t none s → A t (some p) s
  /-- A statement keeps the invariant and establishes the assertion of where it leads. -/
  exec : ∀ t p s s' q, I s → A t (some p) s → ok t p s → S.exec t p s = some (s', q) →
    I s' ∧ A t q s'
  /-- A statement of one session keeps the assertions of the others. -/
  stable : ∀ t p s s' q, I s → A t (some p) s → ok t p s → S.exec t p s = some (s', q) →
    ∀ u r, u ≠ t → A u r s → A u r s'

variable {S} {start : σ → Prop} {ok : ℕ → π → σ → Prop} {I : σ → Prop}

/-- **Soundness of proof outlines.** In every world reached under the guard, the invariant holds
of the store and each session satisfies the assertion of where it stands. -/
theorem reaches_outline {A : ℕ → Option π → σ → Prop} (O : S.Outline start ok I A)
    (h : S.Reaches start ok w) : I w.store ∧ ∀ t, A t (w.live t) w.store := by
  refine h.invariant (I := fun w => I w.store ∧ ∀ t, A t (w.live t) w.store) ?_ ?_
  · rintro _ ⟨s, hs, rfl⟩
    exact O.start s hs
  · rintro w w' (⟨t, p⟩ | t) _ ⟨hI, hA⟩ hok hstep
    · obtain ⟨hentry, hidle, rfl⟩ := S.step_call hstep
      refine ⟨hI, fun u => ?_⟩
      by_cases hu : u = t
      · subst hu
        have hnone : A u none w.store := hidle ▸ hA u
        simpa using O.entry u p w.store hentry hI hnone
      · simpa [hu] using hA u
    · obtain ⟨p, s', q, hp, hexec, rfl⟩ := S.step_exec hstep
      have hok' := hok p hp
      have hAt : A t (some p) w.store := hp ▸ hA t
      have hlocal := O.exec t p _ _ _ hI hAt hok' hexec
      refine ⟨hlocal.1, fun u => ?_⟩
      by_cases hu : u = t
      · subst hu
        simpa using hlocal.2
      · simpa [hu] using O.stable t p _ _ _ hI hAt hok' hexec u _ hu (hA u)

/-- A proof outline whose assertions are about live sessions only. -/
structure PointOutline (S : Sessions σ π) (start : σ → Prop) (ok : ℕ → π → σ → Prop)
    (I : σ → Prop) (A : ℕ → π → σ → Prop) : Prop where
  start : ∀ s, start s → I s
  entry : ∀ t p s, S.entry p = true → I s → A t p s
  exec : ∀ t p s s' q, I s → A t p s → ok t p s → S.exec t p s = some (s', q) →
    I s' ∧ ∀ p', q = some p' → A t p' s'
  stable : ∀ t p s s' q, I s → A t p s → ok t p s → S.exec t p s = some (s', q) →
    ∀ u r, u ≠ t → A u r s → A u r s'

/-- An outline over the points of live sessions is an outline. -/
theorem PointOutline.outline {A : ℕ → π → σ → Prop} (O : S.PointOutline start ok I A) :
    S.Outline start ok I fun t q s => ∀ p, q = some p → A t p s where
  start s hs := ⟨O.start s hs, fun t p hp => by cases hp⟩
  entry t p s hp hI _ := by
    rintro _ ⟨⟩
    exact O.entry t p s hp hI
  exec t p s s' q hI hA := O.exec t p s s' q hI (hA p rfl)
  stable t p s s' q hI hA hok hexec u r hu hr p' hp' :=
    O.stable t p s s' q hI (hA p rfl) hok hexec u p' hu (hr p' hp')

/-- Evaluating a checked run shows what some world reached under the guard looks like. -/
theorem exists_reaches (S : Sessions σ π) (start : σ → Prop) (ok : ℕ → π → σ → Prop)
    [∀ t p s, Decidable (ok t p s)] {s : σ} (hs : start s) (moves : List (Move π))
    {α : Type*} {f : World σ π → α} {v : α}
    (h : (S.machine.runUnder (guard ok) (.idle s) moves).map f = some v) :
    ∃ w, S.Reaches start ok w ∧ f w = v := by
  obtain ⟨w, hw, hv⟩ := Option.map_eq_some_iff.1 h
  exact ⟨w, Machine.Reaches.runUnder (.start ⟨s, hs, rfl⟩) hw, hv⟩

end Sessions

end Foundations
