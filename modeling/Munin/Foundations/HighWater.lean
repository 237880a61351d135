import Munin.Foundations.CursorSweep

/-!
# A cursor that follows what is settled

A consumer takes the first items beyond its cursor, in order, and settles one after the other. Where
one cannot be settled it stops, and its cursor is the last that it has settled.

* **`FirstBeyond`** — a batch of the first items beyond a cursor.
* **`advance`** — the cursor after some items are settled.
* **`FirstBeyond.mem_of_le_advance`** — the cursor goes past no other item.
* **`FirstBeyond.next`** — the item at which the consumer stopped is the first one beyond its
  cursor.
-/

namespace Foundations

variable {ι : Type*} [LinearOrder ι]

/-- The batch has the first items beyond the cursor, each once, in order. -/
def FirstBeyond (items : List ι) (cursor : ι) (batch : List ι) : Prop :=
  batch <+: candidates items (some cursor) fun _ => false

/-- The cursor after these were settled, in this order. -/
def advance (cursor : ι) (settled : List ι) : ι :=
  settled.getLast?.getD cursor

omit [LinearOrder ι] in
@[simp]
theorem advance_nil (cursor : ι) : advance cursor [] = cursor := rfl

omit [LinearOrder ι] in
@[simp]
theorem advance_concat (cursor : ι) (settled : List ι) (i : ι) :
    advance cursor (settled ++ [i]) = i := by
  simp [advance]

/-- The items beyond a cursor. -/
theorem mem_beyond {items : List ι} {cursor i : ι} :
    i ∈ candidates items (some cursor) (fun _ => false) ↔ i ∈ items ∧ cursor < i := by
  rw [mem_candidates, Beyond, Option.all_some, decide_eq_true_eq, eq_self, and_true]

namespace FirstBeyond

variable {items : List ι} {cursor : ι} {batch : List ι}

section Batch

variable (h : FirstBeyond items cursor batch)

include h

theorem ascending : batch.Pairwise (· < ·) :=
  candidates_ascending.sublist h.sublist

variable {i : ι} {bs : List ι}

theorem mem (hi : i ∈ batch) : i ∈ items ∧ cursor < i :=
  mem_beyond.1 (h.subset hi)

/-- Items of the first batch come in their order. -/
theorem mem_of_le {j : ι} (hj : j ∈ batch) (hi : i ∈ items)
    (hlt : cursor < i) (hle : i ≤ j) : i ∈ batch := by
  obtain ⟨rest, hrest⟩ := h
  have hmem : i ∈ batch ++ rest := hrest ▸ mem_beyond.2 ⟨hi, hlt⟩
  refine (List.mem_append.1 hmem).resolve_right fun hlater => ?_
  have hasc : (batch ++ rest).Pairwise (· < ·) := hrest ▸ candidates_ascending
  exact absurd ((List.pairwise_append.1 hasc).2.2 j hj i hlater) (not_lt.2 hle)

/-- It does not matter how the items beyond the cursor are listed. -/
theorem of_mem_iff {items' : List ι}
    (hiff : ∀ i, cursor < i → (i ∈ items ↔ i ∈ items')) : FirstBeyond items' cursor batch := by
  have hsame : candidates items (some cursor) (fun _ => false) =
      candidates items' (some cursor) fun _ => false := by
    refine candidates_ascending.eq_of_mem_iff candidates_ascending fun i => ?_
    rw [mem_beyond, mem_beyond]
    exact and_congr_left (hiff i)
  rw [FirstBeyond, ← hsame]
  exact h

omit h in
/-- The first items of a batch are a batch. -/
theorem of_append {as : List ι} (h : FirstBeyond items cursor (as ++ bs)) :
    FirstBeyond items cursor as :=
  (List.prefix_append as bs).trans h

/-- The cursor is not before any item that was settled. -/
theorem le_advance (hi : i ∈ batch) :
    i ≤ advance cursor batch := by
  rcases batch.eq_nil_or_concat with rfl | ⟨as, last, rfl⟩
  · cases hi
  · rw [List.concat_eq_append] at h hi ⊢
    rw [advance_concat]
    rcases List.mem_append.1 hi with hearlier | hlast
    · exact le_of_lt ((List.pairwise_append.1 h.ascending).2.2 i hearlier last
        List.mem_cons_self)
    · exact le_of_eq (List.mem_singleton.1 hlast)

/-- It does not go back. -/
theorem le_advance_self : cursor ≤ advance cursor batch := by
  rcases batch.eq_nil_or_concat with rfl | ⟨as, last, rfl⟩
  · exact le_rfl
  · rw [List.concat_eq_append] at h ⊢
    rw [advance_concat]
    exact le_of_lt (h.mem (List.mem_append_right _ List.mem_cons_self)).2

/-- **Nothing is skipped**: what the cursor goes past was settled. -/
theorem mem_of_le_advance (hi : i ∈ items)
    (hlt : cursor < i) (hle : i ≤ advance cursor batch) : i ∈ batch := by
  rcases batch.eq_nil_or_concat with rfl | ⟨as, last, rfl⟩
  · exact absurd hle (not_le.2 hlt)
  · rw [List.concat_eq_append] at h hle ⊢
    rw [advance_concat] at hle
    exact h.mem_of_le (List.mem_append_right _ List.mem_cons_self) hi hlt hle

end Batch

/-- **Where the consumer stopped, it goes on**: that item is beyond the cursor, and the first one
that is. -/
theorem next {as : List ι} {u : ι} (h : FirstBeyond items cursor (as ++ u :: bs)) :
    advance cursor as < u ∧ ∀ i ∈ items, advance cursor as < i → u ≤ i := by
  have hasc := List.pairwise_append.1 h.ascending
  constructor
  · rcases as.eq_nil_or_concat with rfl | ⟨before, last, rfl⟩
    · exact (h.mem List.mem_cons_self).2
    · rw [List.concat_eq_append] at hasc ⊢
      rw [advance_concat]
      exact hasc.2.2 last (List.mem_append_right _ List.mem_cons_self) u List.mem_cons_self
  · intro i hi hlt
    by_contra hlater
    have hbetween := h.mem_of_le (List.mem_append_right as List.mem_cons_self) hi
      (lt_of_le_of_lt h.of_append.le_advance_self hlt) (le_of_not_ge hlater)
    -- it would be settled already, or come after the one at which the consumer stopped
    rcases List.mem_append.1 hbetween with hsettled | hrest
    · exact absurd hlt (not_lt.2 (h.of_append.le_advance hsettled))
    · rcases List.mem_cons.1 hrest with rfl | hafter
      · exact hlater le_rfl
      · exact hlater (le_of_lt (List.rel_of_pairwise_cons hasc.2.1 hafter))

/-- A batch that is not empty starts with the first item beyond the cursor. -/
theorem head_eq {b u : ι} (h : FirstBeyond items cursor (b :: bs)) (hu : u ∈ items)
    (hlt : cursor < u) (hfirst : ∀ i ∈ items, cursor < i → u ≤ i) : b = u := by
  obtain ⟨hb, hbeyond⟩ := h.mem List.mem_cons_self
  have hub : u ≤ b := hfirst b hb hbeyond
  have hmem := h.mem_of_le List.mem_cons_self hu hlt hub
  rcases List.mem_cons.1 hmem with rfl | hlater
  · rfl
  · exact absurd (List.rel_of_pairwise_cons h.ascending hlater) (not_lt.2 hub)

end FirstBeyond

end Foundations
