import Mathlib.Logic.Basic

/-!
# Machines, runs and the invariant rule

A `Machine` is a deterministic partial step function `step : σ → ℓ → Option σ`: every choice
that the modelled system leaves open (who moves next, what the outside world answers) is part of
the label, so a run is a list of labels and can be evaluated.

* **`run`** — the state a list of labels leads to, with its composition law `run_append`.
* **`Reaches start ok`** — the states reached by runs that begin in `start` and all of whose steps
  meet the guard `ok`. The guard is what a conditional safety result assumes of the steps;
  `Reachable` is the unguarded case.
* **`Reaches.invariant`** — the induction over a run, packaged once: an invariant that holds at
  the start and is kept by every step that meets the guard holds in every state reached.
-/

namespace Foundations

/-- A deterministic labelled machine; `step s a = none` says that `a` is not enabled in `s`. -/
structure Machine (σ ℓ : Type*) where
  /-- The effect of one label on one state. -/
  step : σ → ℓ → Option σ

namespace Machine

variable {σ ℓ : Type*} (M : Machine σ ℓ)

/-- The state reached from `s` by a list of labels, first label first. -/
def run (s : σ) : List ℓ → Option σ
  | [] => some s
  | a :: as => (M.step s a).bind fun t => run t as

@[simp]
theorem run_nil (s : σ) : M.run s [] = some s := rfl

@[simp]
theorem run_cons (s : σ) (a : ℓ) (as : List ℓ) :
    M.run s (a :: as) = (M.step s a).bind fun t => M.run t as := rfl

/-- **Composition of runs.** -/
theorem run_append (s : σ) (as bs : List ℓ) :
    M.run s (as ++ bs) = (M.run s as).bind fun t => M.run t bs := by
  induction as generalizing s with
  | nil => rfl
  | cons a as ih =>
    rw [List.cons_append, run_cons, run_cons, Option.bind_assoc]
    congr 1
    funext t
    exact ih t

theorem run_append_eq_some {s u : σ} {as bs : List ℓ} :
    M.run s (as ++ bs) = some u ↔ ∃ t, M.run s as = some t ∧ M.run t bs = some u := by
  rw [run_append, Option.bind_eq_some_iff]

/-- A run that ends with the label `a`, split at its last step. -/
theorem run_concat_eq_some {s u : σ} {as : List ℓ} {a : ℓ} :
    M.run s (as ++ [a]) = some u ↔ ∃ t, M.run s as = some t ∧ M.step t a = some u := by
  rw [run_append_eq_some]
  simp only [run_cons, run_nil, Option.bind_fun_some]

/-! ### States reached by guarded runs -/

/-- The states reached from `start` by runs whose every step meets the guard `ok`. -/
inductive Reaches (start : σ → Prop) (ok : σ → ℓ → Prop) : σ → Prop
  | start {s : σ} : start s → Reaches start ok s
  | step {s t : σ} {a : ℓ} : Reaches start ok s → ok s a → M.step s a = some t →
      Reaches start ok t

/-- The states reached by any run at all. -/
abbrev Reachable (start : σ → Prop) : σ → Prop :=
  M.Reaches start fun _ _ => True

variable {M} {start : σ → Prop} {ok : σ → ℓ → Prop}

/-- **The invariant rule.** What holds at the start, and is kept by every step that meets the
guard, holds in every state reached. The step may use that its source state is reached. -/
theorem Reaches.invariant {I : σ → Prop} (h0 : ∀ s, start s → I s)
    (hstep : ∀ s t a, M.Reaches start ok s → I s → ok s a → M.step s a = some t → I t)
    {s : σ} (h : M.Reaches start ok s) : I s := by
  induction h with
  | start hs => exact h0 _ hs
  | step hr hok ht ih => exact hstep _ _ _ hr ih hok ht

/-- A weaker guard reaches more states. -/
theorem Reaches.mono {ok' : σ → ℓ → Prop} (hok : ∀ s a, ok s a → ok' s a) {s : σ}
    (h : M.Reaches start ok s) : M.Reaches start ok' s := by
  induction h with
  | start hs => exact .start hs
  | step _ hg ht ih => exact .step ih (hok _ _ hg) ht

/-- What is reached from a state that is reached is reached. -/
theorem Reaches.trans {s t : σ} (hs : M.Reaches start ok s) (h : M.Reaches (· = s) ok t) :
    M.Reaches start ok t := by
  induction h with
  | start hst =>
    subst hst
    exact hs
  | step _ hok ht ih => exact .step ih hok ht

/-- The end of a run whose labels meet the guard wherever they are taken. -/
theorem reaches_of_run {s t : σ} (hs : start s) {as : List ℓ}
    (hok : ∀ a ∈ as, ∀ u, ok u a) (h : M.run s as = some t) : M.Reaches start ok t := by
  have hextend : ∀ (as : List ℓ) (s : σ), M.Reaches start ok s → (∀ a ∈ as, ∀ u, ok u a) →
      M.run s as = some t → M.Reaches start ok t := by
    intro as
    induction as with
    | nil =>
      intro s hs _ h
      exact Option.some.inj h ▸ hs
    | cons a as ih =>
      intro s hs hok h
      obtain ⟨u, hu, ht⟩ := Option.bind_eq_some_iff.1 h
      exact ih u (.step hs (hok a List.mem_cons_self s) hu)
        (fun b hb => hok b (List.mem_cons_of_mem a hb)) ht
  exact hextend as s (.start hs) hok h

/-- Runs extend reachability. -/
theorem Reachable.run {s t : σ} (hs : M.Reachable start s) {as : List ℓ}
    (h : M.run s as = some t) : M.Reachable start t := by
  induction as generalizing s with
  | nil =>
    obtain rfl : s = t := Option.some.inj h
    exact hs
  | cons a as ih =>
    obtain ⟨u, hu, ht⟩ := Option.bind_eq_some_iff.1 h
    exact ih (.step hs trivial hu) ht

/-- The end of a run from a start state is reachable. -/
theorem reachable_of_run {s t : σ} (hs : start s) {as : List ℓ} (h : M.run s as = some t) :
    M.Reachable start t :=
  Reachable.run (.start hs) h

/-- A run all of whose steps meet the guard, checked on the way. -/
def runUnder (M : Machine σ ℓ) (ok : σ → ℓ → Prop) [∀ s a, Decidable (ok s a)] (s : σ) :
    List ℓ → Option σ
  | [] => some s
  | a :: as => if ok s a then (M.step s a).bind fun t => runUnder M ok t as else none

/-- A checked run stays within the states reached under its guard. -/
theorem Reaches.runUnder [∀ s a, Decidable (ok s a)] {s t : σ} (hs : M.Reaches start ok s)
    {as : List ℓ} (h : M.runUnder ok s as = some t) : M.Reaches start ok t := by
  induction as generalizing s with
  | nil =>
    obtain rfl : s = t := Option.some.inj h
    exact hs
  | cons a as ih =>
    rw [Machine.runUnder] at h
    split at h
    · rename_i hok
      obtain ⟨u, hu, ht⟩ := Option.bind_eq_some_iff.1 h
      exact ih (.step hs hok hu) ht
    · cases h

/-- Evaluating a checked run shows what some state reached under the guard looks like. -/
theorem exists_reaches_of_runUnder [∀ s a, Decidable (ok s a)] {s : σ} (hs : start s)
    {as : List ℓ} {α : Type*} {f : σ → α} {v : α} (h : (M.runUnder ok s as).map f = some v) :
    ∃ t, M.Reaches start ok t ∧ f t = v := by
  obtain ⟨t, ht, hv⟩ := Option.map_eq_some_iff.1 h
  exact ⟨t, Reaches.runUnder (.start hs) ht, hv⟩

end Machine

end Foundations
