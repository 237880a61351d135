import Mathlib.Data.Finset.Filter

/-!
# Tables that differ in hidden rows

Two states of a table agree outside the rows that are hidden in them. What a reader may see of the
table is then the same in both, if it is never hidden; and a reader who may see some of the hidden
rows sees the same exactly if those are the same.

* **`AgreeOutside`** — the two states, once their hidden rows are taken away.
* **`AgreeOutside.filter_eq`** — the rule for a reader who sees no hidden row.
* **`AgreeOutside.filter_eq_iff`** — the rule for any other reader.
-/

namespace Foundations

variable {α : Type*}

/-- The tables `s` and `t` are the same up to their hidden rows. -/
def AgreeOutside (s : Finset α) (h : α → Prop) [DecidablePred h] (t : Finset α) (k : α → Prop)
    [DecidablePred k] : Prop :=
  (s.filter fun a => ¬ h a) = t.filter fun a => ¬ k a

instance [DecidableEq α] (s : Finset α) (h : α → Prop) [DecidablePred h] (t : Finset α)
    (k : α → Prop) [DecidablePred k] : Decidable (AgreeOutside s h t k) :=
  inferInstanceAs (Decidable (_ = _))

namespace AgreeOutside

variable {s t : Finset α} {h k : α → Prop} [DecidablePred h] [DecidablePred k]

theorem symm (hagree : AgreeOutside s h t k) : AgreeOutside t k s h :=
  Eq.symm hagree

/-- A row that is not hidden is a row of the other table too, and not hidden there. -/
theorem mem (hagree : AgreeOutside s h t k) {a : α} (ha : a ∈ s) (hha : ¬ h a) :
    a ∈ t ∧ ¬ k a := by
  have hmem : a ∈ s.filter fun a => ¬ h a := Finset.mem_filter.2 ⟨ha, hha⟩
  rw [hagree] at hmem
  exact Finset.mem_filter.1 hmem

/-- What is seen, and never hidden, is seen in both tables alike. -/
theorem filter_eq (hagree : AgreeOutside s h t k) {v w : α → Prop} [DecidablePred v]
    [DecidablePred w] (hv : ∀ a ∈ s, v a → ¬ h a) (hw : ∀ a ∈ t, w a → ¬ k a)
    (hsame : ∀ a ∈ s, a ∈ t → (v a ↔ w a)) : s.filter v = t.filter w := by
  ext a
  rw [Finset.mem_filter, Finset.mem_filter]
  constructor
  · rintro ⟨ha, hva⟩
    have hat := (hagree.mem ha (hv a ha hva)).1
    exact ⟨hat, (hsame a ha hat).1 hva⟩
  · rintro ⟨hat, hwa⟩
    have ha := (hagree.symm.mem hat (hw a hat hwa)).1
    exact ⟨ha, (hsame a ha hat).2 hwa⟩

/-- A reader of some of the hidden rows sees the same if and only if those are the same. -/
theorem filter_eq_iff (hagree : AgreeOutside s h t k) (v : α → Prop) [DecidablePred v] :
    s.filter v = t.filter v ↔
      (s.filter fun a => v a ∧ h a) = t.filter fun a => v a ∧ k a := by
  constructor
  · intro heq
    ext a
    rw [Finset.mem_filter, Finset.mem_filter]
    have hmem : a ∈ s.filter v ↔ a ∈ t.filter v := by rw [heq]
    rw [Finset.mem_filter, Finset.mem_filter] at hmem
    constructor
    · rintro ⟨ha, hva, hha⟩
      have hat := (hmem.1 ⟨ha, hva⟩).1
      exact ⟨hat, hva, by_contra fun hka => (hagree.symm.mem hat hka).2 hha⟩
    · rintro ⟨hat, hva, hka⟩
      have ha := (hmem.2 ⟨hat, hva⟩).1
      exact ⟨ha, hva, by_contra fun hha => (hagree.mem ha hha).2 hka⟩
  · intro heq
    ext a
    have hmem : a ∈ (s.filter fun a => v a ∧ h a) ↔ a ∈ t.filter fun a => v a ∧ k a := by rw [heq]
    rw [Finset.mem_filter, Finset.mem_filter] at hmem
    rw [Finset.mem_filter, Finset.mem_filter]
    constructor
    · rintro ⟨ha, hva⟩
      by_cases hha : h a
      · exact ⟨(hmem.1 ⟨ha, hva, hha⟩).1, hva⟩
      · exact ⟨(hagree.mem ha hha).1, hva⟩
    · rintro ⟨hat, hva⟩
      by_cases hka : k a
      · exact ⟨(hmem.2 ⟨hat, hva, hka⟩).1, hva⟩
      · exact ⟨(hagree.symm.mem hat hka).1, hva⟩

end AgreeOutside

end Foundations
