import Mathlib.Order.Nat
import Mathlib.Tactic.Choose
import Munin.Foundations.Machine

/-!
# Executions

An `Execution` of a machine is a run without an end: a state and a label for every time, where no
label means that nothing happens. What eventually happens is said of executions.

* **`Execution.reachable`** — the states of an execution are reached, so that invariants of the
  machine hold in them.
* **`Execution.kept_or_reached`** — what every step either keeps or turns into the goal is kept for ever or
  leads to the goal.
* **`exists_execution`** — a run is an execution in which nothing happens after its end.
-/

namespace Foundations

namespace Machine

variable {σ ℓ : Type*} {M : Machine σ ℓ} {start : σ → Prop}

/-- A run without an end; at a time without a label nothing happens. -/
structure Execution (M : Machine σ ℓ) (start : σ → Prop) where
  state : ℕ → σ
  label : ℕ → Option ℓ
  start_state : start (state 0)
  idle : ∀ n, label n = none → state (n + 1) = state n
  step : ∀ n a, label n = some a → M.step (state n) a = some (state (n + 1))

namespace Execution

variable (x : M.Execution start)

/-- The states of an execution are reached. -/
theorem reachable (n : ℕ) : M.Reachable start (x.state n) := by
  induction n with
  | zero => exact .start x.start_state
  | succ n ih =>
    cases hlabel : x.label n with
    | none => exact (x.idle n hlabel).symm ▸ ih
    | some a => exact .step ih trivial (x.step n a hlabel)

/-- **The unless rule.** What holds at a time, and is kept by every step that does not reach the
goal, is kept for ever unless the goal is reached. -/
theorem kept_or_reached {P : σ → Prop} {goal : ℕ → Prop} {n : ℕ} (h0 : P (x.state n))
    (hstep : ∀ m a, P (x.state m) → x.label m = some a → goal m ∨ P (x.state (m + 1))) :
    (∃ m, n ≤ m ∧ goal m) ∨ ∀ m, n ≤ m → P (x.state m) := by
  by_cases hgoal : ∃ m, n ≤ m ∧ goal m
  · exact .inl hgoal
  · refine .inr fun m hm => ?_
    induction m, hm using Nat.le_induction with
    | base => exact h0
    | succ m hm ih =>
      cases hlabel : x.label m with
      | none => exact (x.idle m hlabel).symm ▸ ih
      | some a => exact (hstep m a ih hlabel).resolve_left fun h => hgoal ⟨m, hm, h⟩

end Execution

/-- **A run is an execution** in which nothing happens after its end. -/
theorem exists_execution {s t : σ} (hs : start s) {as : List ℓ} (h : M.run s as = some t) :
    ∃ x : M.Execution start, (∀ n, x.label n = as[n]?) ∧ x.state 0 = s := by
  have hprefix : ∀ n, ∃ u, M.run s (as.take n) = some u := by
    intro n
    rw [← List.take_append_drop n as, M.run_append_eq_some] at h
    exact ⟨_, h.choose_spec.1⟩
  choose state hstate using hprefix
  have hzero : state 0 = s := (Option.some.inj (hstate 0)).symm
  refine ⟨⟨state, fun n => as[n]?, hzero ▸ hs, fun n hnone => ?_, fun n a hn => ?_⟩,
    fun _ => rfl, hzero⟩
  · rw [List.getElem?_eq_none_iff] at hnone
    have hsame := hstate (n + 1)
    rw [List.take_of_length_le (Nat.le_succ_of_le hnone), ← List.take_of_length_le hnone,
      hstate n] at hsame
    exact (Option.some.inj hsame).symm
  · have hnext := hstate (n + 1)
    rw [List.take_add_one, hn, Option.toList_some, M.run_concat_eq_some] at hnext
    obtain ⟨u, hu, hstep⟩ := hnext
    obtain rfl := Option.some.inj ((hstate n).symm.trans hu)
    exact hstep

end Machine

end Foundations
