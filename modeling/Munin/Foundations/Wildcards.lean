import Munin.Foundations.Occurrences

/-!
# Wildcard patterns

A pattern of units of which one, the star, stands for any sequence.

* **`WildMatch`** — a pattern matches a text as a whole.
* **`wildMatch_iff_gapped`** — the pieces between the stars stand in the text, the first at its
  beginning, each other behind a gap, and the last at its end.
* **`seek`** — the search for the pieces from the left. It finds for each the first place behind
  the one before, and so ends as early as any placing of the pieces (`exists_seek_le`).
-/

namespace Foundations

variable {α : Type*}

/-- A pattern matches a text. -/
inductive WildMatch (star : α) : List α → List α → Prop
  | nil : WildMatch star [] []
  | unit {u : α} {pattern text : List α} (hu : u ≠ star) (h : WildMatch star pattern text) :
      WildMatch star (u :: pattern) (u :: text)
  | any {pattern text : List α} (gap : List α) (h : WildMatch star pattern text) :
      WildMatch star (star :: pattern) (gap ++ text)

/-- A text is some pieces, each with a gap before it. -/
inductive Gapped : List (List α) → List α → Prop
  | nil : Gapped [] []
  | cons {pieces : List (List α)} {text : List α} (gap piece : List α) (h : Gapped pieces text) :
      Gapped (piece :: pieces) (gap ++ piece ++ text)

/-- Some pieces stand in a text one behind the other, from position `i` on up to position `j`. -/
inductive PlacedIn (text : List α) : List (List α) → ℕ → ℕ → Prop
  | nil (i : ℕ) : PlacedIn text [] i i
  | cons {piece : List α} {pieces : List (List α)} {i k j : ℕ} (hik : i ≤ k)
      (hoccurs : OccursAt piece text k) (hk : k + piece.length ≤ text.length)
      (h : PlacedIn text pieces (k + piece.length) j) : PlacedIn text (piece :: pieces) i j

/-! ### Pieces -/

section Pieces

variable [DecidableEq α] {star : α}

/-- **A pattern matches a text that is made of its pieces**. -/
theorem wildMatch_iff_gapped {pattern text : List α} :
    WildMatch star pattern text ↔ ∃ first pieces rest, pattern.splitOn star = first :: pieces ∧
      text = first ++ rest ∧ Gapped pieces rest := by
  induction pattern generalizing text with
  | nil =>
    rw [List.splitOn_nil]
    constructor
    · intro h
      cases h
      exact ⟨[], [], [], rfl, rfl, .nil⟩
    · rintro ⟨first, pieces, rest, hsplit, rfl, hrest⟩
      obtain ⟨rfl, rfl⟩ := List.cons.inj hsplit
      cases hrest
      exact .nil
  | cons u pattern ih =>
    obtain ⟨first, pieces, hsplit⟩ := List.exists_cons_of_ne_nil (List.splitOn_ne_nil star pattern)
    rw [List.splitOn_cons_eq_if_modifyHead, hsplit]
    simp only [hsplit, List.cons.injEq] at ih
    by_cases hu : u = star
    · subst hu
      rw [if_pos (beq_self_eq_true u)]
      constructor
      · intro h
        cases h with
        | unit hne h => exact absurd rfl hne
        | any gap h =>
          obtain ⟨_, _, rest, ⟨rfl, rfl⟩, rfl, hrest⟩ := ih.1 h
          refine ⟨[], first :: pieces, gap ++ (first ++ rest), rfl, rfl, ?_⟩
          rw [← List.append_assoc]
          exact .cons gap first hrest
      · rintro ⟨_, _, rest, hcons, rfl, hrest⟩
        obtain ⟨rfl, rfl⟩ := List.cons.inj hcons
        cases hrest with
        | cons gap _ hrest =>
          rw [List.nil_append, List.append_assoc]
          exact .any gap (ih.2 ⟨first, pieces, _, ⟨rfl, rfl⟩, rfl, hrest⟩)
    · rw [if_neg (by simpa using hu), List.modifyHead_cons]
      constructor
      · intro h
        cases h with
        | unit _ h =>
          obtain ⟨_, _, rest, ⟨rfl, rfl⟩, rfl, hrest⟩ := ih.1 h
          exact ⟨u :: first, pieces, rest, rfl, rfl, hrest⟩
        | any gap h => exact absurd rfl hu
      · rintro ⟨_, _, rest, hcons, rfl, hrest⟩
        obtain ⟨rfl, rfl⟩ := List.cons.inj hcons
        exact .unit hu (ih.2 ⟨first, pieces, rest, ⟨rfl, rfl⟩, rfl, hrest⟩)

end Pieces

/-! ### Places -/

variable {text : List α} {pieces : List (List α)} {i j : ℕ}

theorem PlacedIn.le_length
    (h : PlacedIn text pieces i j) (hi : i ≤ text.length) : j ≤ text.length := by
  induction h with
  | nil i => exact hi
  | cons _ _ hk _ ih => exact ih hk

theorem placed_of_gapped {rest : List α} (h : Gapped pieces rest)
    {after : List α} (hi : i ≤ text.length) (htext : text.drop i = rest ++ after) :
    PlacedIn text pieces i (i + rest.length) := by
  induction h generalizing i with
  | nil => exact .nil i
  | @cons pieces rest gap piece _ ih =>
    have hlength := congrArg List.length htext
    simp only [List.length_drop, List.length_append] at hlength
    have hdrop : text.drop (i + gap.length) = piece ++ (rest ++ after) := by
      rw [← List.drop_drop, htext, List.append_assoc, List.append_assoc, List.drop_left]
    have hdrop' : text.drop (i + gap.length + piece.length) = rest ++ after := by
      rw [← List.drop_drop, hdrop, List.drop_left]
    have hplaced := ih (by omega) hdrop'
    rw [List.length_append, List.length_append, ← Nat.add_assoc, ← Nat.add_assoc]
    exact .cons (Nat.le_add_right i _) ⟨_, hdrop.symm⟩ (by omega) hplaced

theorem gapped_of_placed (h : PlacedIn text pieces i j) (hi : i ≤ text.length) :
    ∃ rest after, text.drop i = rest ++ after ∧ i + rest.length = j ∧ Gapped pieces rest := by
  induction h with
  | nil i => exact ⟨[], text.drop i, rfl, rfl, .nil⟩
  | @cons piece pieces i k j hik hoccurs hk _ ih =>
    obtain ⟨rest, after, hrest, hj, hgapped⟩ := ih hk
    obtain ⟨behind, hbehind⟩ := hoccurs
    have hsame : behind = rest ++ after := by
      rw [← List.drop_drop, ← hbehind, List.drop_left] at hrest
      exact hrest
    have hgap : text.drop i = (text.drop i).take (k - i) ++ (piece ++ (rest ++ after)) := by
      rw [← hsame, hbehind, ← Nat.add_sub_cancel' hik, Nat.add_sub_cancel_left,
        ← List.drop_drop, List.take_append_drop]
    refine ⟨(text.drop i).take (k - i) ++ piece ++ rest, after, ?_, ?_, .cons _ _ hgapped⟩
    · rw [List.append_assoc, List.append_assoc]
      exact hgap
    · simp only [List.length_append, List.length_take, List.length_drop]
      omega

/-- The last of some pieces stands behind the others. -/
theorem placed_concat_iff {last : List α} :
    PlacedIn text (pieces ++ [last]) i j ↔ ∃ m k, PlacedIn text pieces i m ∧ m ≤ k ∧
      OccursAt last text k ∧ k + last.length ≤ text.length ∧ k + last.length = j := by
  induction pieces generalizing i with
  | nil =>
    constructor
    · intro h
      cases h with
      | cons hik hoccurs hk h =>
        cases h
        exact ⟨i, _, .nil i, hik, hoccurs, hk, rfl⟩
    · rintro ⟨m, k, hm, hmk, hoccurs, hk, rfl⟩
      cases hm
      exact .cons hmk hoccurs hk (.nil _)
  | cons piece pieces ih =>
    constructor
    · intro h
      cases h with
      | cons hik hoccurs hk h =>
        obtain ⟨m, k, hm, hrest⟩ := ih.1 h
        exact ⟨m, k, .cons hik hoccurs hk hm, hrest⟩
    · rintro ⟨m, k, hm, hrest⟩
      cases hm with
      | cons hik hoccurs hk hm => exact .cons hik hoccurs hk (ih.2 ⟨m, k, hm, hrest⟩)

/-! ### The search -/

section Search

variable [DecidableEq α] {text : List α}

/-- The search for some pieces from position `i` on, each behind the one before; where it ends. An
empty piece is passed over. -/
def seek (text : List α) : List (List α) → ℕ → Option ℕ
  | [], i => some i
  | piece :: pieces, i =>
    if piece = [] then seek text pieces i
    else
      match indexOf piece text i with
      | none => none
      | some k => seek text pieces (k + piece.length)

/-- What the search has found are places of the pieces. -/
theorem placed_of_seek {pieces : List (List α)} {i j : ℕ} (hi : i ≤ text.length)
    (h : seek text pieces i = some j) : PlacedIn text pieces i j := by
  induction pieces generalizing i with
  | nil =>
    cases h
    exact .nil _
  | cons piece pieces ih =>
    rw [seek] at h
    split_ifs at h with hnil
    · subst hnil
      exact .cons (Nat.le_refl i) List.nil_prefix hi (ih hi h)
    · split at h
      · cases h
      · rename_i k hk
        obtain ⟨hik, hoccurs, -⟩ := indexOf_eq_some hk
        have hle := hoccurs.le_length hnil
        exact .cons hik hoccurs hle (ih hle h)

/-- **The search ends as early as any placing**: by induction on the pieces, since the first place
of a piece leaves the most room for the others. -/
theorem exists_seek_le {pieces : List (List α)} {i' j' : ℕ} (h : PlacedIn text pieces i' j') :
    ∀ i ≤ i', ∃ j, seek text pieces i = some j ∧ j ≤ j' := by
  induction h with
  | nil i' => exact fun i hi => ⟨i, rfl, hi⟩
  | @cons piece pieces i' k j hik hoccurs hk _ ih =>
    intro i hi
    rw [seek]
    split_ifs with hnil
    · subst hnil
      exact ih i (by simp only [List.length_nil]; omega)
    · cases hfirst : indexOf piece text i with
      | none => exact absurd hoccurs (indexOf_eq_none hnil hfirst (by omega))
      | some k' =>
        obtain ⟨-, -, hbefore⟩ := indexOf_eq_some hfirst
        have hle : k' ≤ k := by
          by_contra hlt
          exact hbefore k (by omega) (by omega) hoccurs
        exact ih _ (by omega)

end Search

end Foundations
