import Mathlib.Data.List.Basic

/-!
# Where a word stands in a text

The search of one text in another, as JavaScript's `indexOf`, `split` and `join` do it: from left to
right, each search starting behind what the one before has found.

* **`OccursAt`** — the word stands at a position. Two of its places may overlap.
* **`scan`** — the places that the search finds, one behind the other (`scan_spaced`). Each place of
  the word begins within one that was found (`exists_mem_scan`), so what the search passes over
  overlaps what it has found.
* **`splitOn`** — the pieces between the places found. Joined by another word they are the text with
  the word replaced there (`intercalate_splitOn_single`).
-/

namespace Foundations

variable {α : Type*} [DecidableEq α]

/-- The word stands in the text at position `i`. -/
def OccursAt (word text : List α) (i : ℕ) : Prop := word <+: text.drop i

instance (word text : List α) (i : ℕ) : Decidable (OccursAt word text i) :=
  decidable_of_iff (word.isPrefixOf (text.drop i) = true) List.isPrefixOf_iff_prefix

/-- No two places of the word in the text overlap. -/
def NeverOverlaps (word text : List α) : Prop :=
  ∀ i j, OccursAt word text i → OccursAt word text j → i < j → i + word.length ≤ j

/-- `text.indexOf(word, start)`. -/
def indexOf (word text : List α) (start : ℕ) : Option ℕ :=
  (List.range' start (text.length + 1 - start)).find? fun i => decide (OccursAt word text i)

/-- `text.lastIndexOf(word, position)`, for a word that is not empty. -/
def lastIndexOf (word text : List α) (position : ℕ) : Option ℕ :=
  (List.range (position + 1)).reverse.find? fun i => decide (OccursAt word text i)

/-- The places that repeated searches find, each search starting behind the place before. Of the
`fuel` searches the last finds nothing. -/
def scanFrom (word text : List α) : ℕ → ℕ → List ℕ
  | 0, _ => []
  | fuel + 1, start =>
    match indexOf word text start with
    | none => []
    | some i => i :: scanFrom word text fuel (i + word.length)

/-- The places that a search from left to right finds. -/
def scan (word text : List α) : List ℕ := scanFrom word text (text.length + 1) 0

/-- The pieces of a text from `start` on, between the places given, each `width` wide. -/
def piecesBetween (width : ℕ) (text : List α) : ℕ → List ℕ → List (List α)
  | start, [] => [text.drop start]
  | start, i :: places =>
    (text.drop start).take (i - start) :: piecesBetween width text (i + width) places

/-- `text.split(word)`, for a word that is not empty. -/
def splitOn (word text : List α) : List (List α) :=
  piecesBetween word.length text 0 (scan word text)

/-- The text with the `width` characters at position `i` replaced. -/
def replaceAt (text : List α) (i width : ℕ) (new : List α) : List α :=
  text.take i ++ new ++ text.drop (i + width)

/-! ### Places -/

variable {word text : List α} {i start j : ℕ}

omit [DecidableEq α] in
theorem OccursAt.le_length (hword : word ≠ [])
    (h : OccursAt word text i) : i + word.length ≤ text.length := by
  have hle : word.length ≤ (text.drop i).length := List.IsPrefix.length_le h
  have hpos : 0 < word.length := List.length_pos_iff.2 hword
  rw [List.length_drop] at hle
  omega

theorem indexOf_eq_some (h : indexOf word text start = some i) :
    start ≤ i ∧ OccursAt word text i ∧ ∀ j, start ≤ j → j < i → ¬ OccursAt word text j := by
  rw [indexOf, List.find?_range'_eq_some] at h
  obtain ⟨hoccurs, hmem, hbefore⟩ := h
  refine ⟨?_, of_decide_eq_true hoccurs, fun j hstart hj hj' => ?_⟩
  · rw [List.mem_range'_1] at hmem
    exact hmem.1
  · simpa [hj'] using hbefore j hstart hj

theorem indexOf_eq_none (hword : word ≠ [])
    (h : indexOf word text start = none) (hj : start ≤ j) : ¬ OccursAt word text j := by
  intro hoccurs
  have hle := hoccurs.le_length hword
  rw [indexOf, List.find?_eq_none] at h
  exact h j (List.mem_range'_1.2 (by omega)) (decide_eq_true hoccurs)

/-- A character stands first behind a text without it. -/
theorem indexOf_singleton {c : α} {before : List α} (h : c ∉ before) (after : List α) :
    indexOf [c] (before ++ c :: after) 0 = some before.length := by
  rw [indexOf, List.find?_range'_eq_some]
  refine ⟨decide_eq_true ?_, ?_, fun j _ hj => ?_⟩
  · rw [OccursAt, List.drop_left]
    exact ⟨after, rfl⟩
  · rw [List.mem_range'_1, List.length_append, List.length_cons]
    omega
  · have hnot : ¬ OccursAt [c] (before ++ c :: after) j := by
      rintro ⟨rest, hrest⟩
      rw [List.drop_append_of_le_length (Nat.le_of_lt hj), List.drop_eq_getElem_cons hj] at hrest
      exact h ((List.cons.inj hrest).1 ▸ List.getElem_mem hj)
    simp [hnot]

theorem lastIndexOf_eq_some {position : ℕ}
    (h : lastIndexOf word text position = some i) : i ≤ position ∧ OccursAt word text i := by
  have hmem := List.mem_of_find?_eq_some h
  have hfound := List.find?_some (p := fun i => decide (OccursAt word text i)) h
  rw [List.mem_reverse, List.mem_range] at hmem
  exact ⟨Nat.le_of_lt_succ hmem, of_decide_eq_true hfound⟩

/-- A character stands last before a text without it. -/
theorem lastIndexOf_singleton {c : α} {after : List α} (h : c ∉ after) {before : List α}
    {position : ℕ} (hposition : before.length ≤ position) :
    lastIndexOf [c] (before ++ c :: after) position = some before.length := by
  have hoccurs : OccursAt [c] (before ++ c :: after) before.length := by
    rw [OccursAt, List.drop_left]
    exact ⟨after, rfl⟩
  have hbehind : ∀ i, before.length < i → ¬ OccursAt [c] (before ++ c :: after) i := by
    rintro i hi ⟨rest, hrest⟩
    obtain ⟨k, rfl⟩ := Nat.exists_eq_add_of_lt hi
    rw [Nat.add_assoc, ← List.drop_drop, List.drop_left, List.drop_succ_cons] at hrest
    refine h (List.mem_of_mem_drop (i := k) ?_)
    rw [← hrest]
    exact List.mem_cons_self
  cases hlast : lastIndexOf [c] (before ++ c :: after) position with
  | none =>
    rw [lastIndexOf, List.find?_eq_none] at hlast
    exact absurd (decide_eq_true hoccurs)
      (hlast before.length (List.mem_reverse.2 (List.mem_range.2 (by omega))))
  | some i =>
    obtain ⟨hoccurs', greater, smaller, hall, hgreater⟩ :=
      List.find?_eq_some_iff_append.1 hlast
    have hmem : before.length ∈ (List.range (position + 1)).reverse :=
      List.mem_reverse.2 (List.mem_range.2 (by omega))
    have hdown : ((List.range (position + 1)).reverse).Pairwise fun j k => k < j :=
      List.pairwise_reverse.2 List.pairwise_lt_range
    rw [hall, List.mem_append, List.mem_cons] at hmem
    rw [hall, List.pairwise_append, List.pairwise_cons] at hdown
    rcases hmem with hgreater' | rfl | hsmaller
    · have hnot := hgreater _ hgreater'
      rw [decide_eq_true hoccurs] at hnot
      cases hnot
    · rfl
    · exact absurd (of_decide_eq_true hoccurs') (hbehind i (hdown.2.1.1 _ hsmaller))

/-! ### The places a scan finds -/

theorem occursAt_of_mem_scanFrom {fuel : ℕ}
    (h : i ∈ scanFrom word text fuel start) : start ≤ i ∧ OccursAt word text i := by
  induction fuel generalizing start with
  | zero => simp [scanFrom] at h
  | succ fuel ih =>
    rw [scanFrom] at h
    split at h
    · simp at h
    · rename_i first hfirst
      obtain ⟨hstart, hoccurs, -⟩ := indexOf_eq_some hfirst
      rcases List.mem_cons.1 h with rfl | hrest
      · exact ⟨hstart, hoccurs⟩
      · exact ⟨by have := (ih hrest).1; omega, (ih hrest).2⟩

/-- With enough fuel, a place of the word that the scan passes over begins within one that it
finds. -/
theorem exists_mem_scanFrom (hword : word ≠ []) {fuel : ℕ}
    (hfuel : text.length < start + fuel) (hj : start ≤ j) (h : OccursAt word text j) :
    ∃ i ∈ scanFrom word text fuel start, i ≤ j ∧ j < i + word.length := by
  have hle := h.le_length hword
  have hpos : 0 < word.length := List.length_pos_iff.2 hword
  induction fuel generalizing start with
  | zero => omega
  | succ fuel ih =>
    rw [scanFrom]
    split
    · rename_i hnone
      exact absurd h (indexOf_eq_none hword hnone hj)
    · rename_i first hfirst
      obtain ⟨hstart, hoccurs, hbefore⟩ := indexOf_eq_some hfirst
      have hfirstle : first ≤ j := Nat.not_lt.1 fun hlt => hbefore j hj hlt h
      by_cases hin : j < first + word.length
      · exact ⟨first, List.mem_cons_self, hfirstle, hin⟩
      · obtain ⟨i, hi, hij⟩ :=
          ih (by omega : text.length < first + word.length + fuel) (by omega)
        exact ⟨i, List.mem_cons_of_mem _ hi, hij⟩

theorem scanFrom_spaced (fuel start : ℕ) :
    (scanFrom word text fuel start).Pairwise fun i j => i + word.length ≤ j := by
  induction fuel generalizing start with
  | zero => exact .nil
  | succ fuel ih =>
    rw [scanFrom]
    split
    · exact .nil
    · exact .cons (fun j hj => (occursAt_of_mem_scanFrom hj).1) (ih _)

theorem occursAt_of_mem_scan (h : i ∈ scan word text) : OccursAt word text i :=
  (occursAt_of_mem_scanFrom h).2

/-- Each place of the word begins within one that the scan finds. -/
theorem exists_mem_scan (hword : word ≠ [])
    (h : OccursAt word text j) : ∃ i ∈ scan word text, i ≤ j ∧ j < i + word.length :=
  exists_mem_scanFrom hword (by omega) (Nat.zero_le _) h

/-- The places that a scan finds do not overlap. -/
theorem scan_spaced (word text : List α) :
    (scan word text).Pairwise fun i j => i + word.length ≤ j :=
  scanFrom_spaced _ _

theorem scan_eq_nil_iff (hword : word ≠ []) :
    scan word text = [] ↔ ∀ i, ¬ OccursAt word text i := by
  refine ⟨fun hnil i hi => ?_, fun hnone => ?_⟩
  · obtain ⟨j, hj, -⟩ := exists_mem_scan hword hi
    rw [hnil] at hj
    exact List.not_mem_nil hj
  · exact List.eq_nil_iff_forall_not_mem.2 fun i hi => hnone i (occursAt_of_mem_scan hi)

/-- Where no two places overlap, the scan finds every place. -/
theorem mem_scan_iff (hword : word ≠ []) (hnever : NeverOverlaps word text)
    (i : ℕ) : i ∈ scan word text ↔ OccursAt word text i := by
  refine ⟨occursAt_of_mem_scan, fun hi => ?_⟩
  obtain ⟨j, hj, hji, hlt⟩ := exists_mem_scan hword hi
  rcases Nat.eq_or_lt_of_le hji with rfl | hji
  · exact hj
  · exact absurd (hnever j i (occursAt_of_mem_scan hj) hi hji) (by omega)

/-- The only place of a word is what the scan finds. -/
theorem scan_eq_singleton (hword : word ≠ [])
    (hunique : ∀ j, OccursAt word text j ↔ j = i) : scan word text = [i] := by
  have hmem : ∀ j, j ∈ scan word text ↔ j = i := by
    intro j
    rw [← hunique j]
    refine mem_scan_iff hword (fun j k hj hk hjk => ?_) j
    have := (hunique j).1 hj
    have := (hunique k).1 hk
    omega
  have hnodup : (scan word text).Nodup := by
    refine (scan_spaced word text).imp fun {j k} hjk heq => ?_
    have := List.length_pos_iff.2 hword
    omega
  exact List.perm_singleton.1 ((List.perm_ext_iff_of_nodup hnodup (List.pairwise_singleton _ i)).2
    fun j => (hmem j).trans List.mem_singleton.symm)

/-- A scan that finds a single place has found the only one, unless two places overlap. -/
theorem occursAt_iff_of_scan_single (hword : word ≠ []) (hscan : scan word text = [i]) :
    (∀ j, OccursAt word text j ↔ j = i) ↔ NeverOverlaps word text := by
  refine ⟨fun hunique j k hj hk hjk => ?_, fun hnever j => ?_⟩
  · have := (hunique j).1 hj
    have := (hunique k).1 hk
    omega
  · rw [← mem_scan_iff hword hnever, hscan, List.mem_singleton]

/-! ### Splitting and joining -/

theorem splitOn_of_scan_nil (h : scan word text = []) : splitOn word text = [text] := by
  rw [splitOn, h]
  rfl

/-- Without a place there is nothing to replace. -/
theorem intercalate_splitOn_nil (h : scan word text = []) (new : List α) :
    new.intercalate (splitOn word text) = text := by
  rw [splitOn_of_scan_nil h]
  simp [List.intercalate]

/-- With a single place, that one is replaced. -/
theorem intercalate_splitOn_single (h : scan word text = [i]) (new : List α) :
    new.intercalate (splitOn word text) = replaceAt text i word.length new := by
  rw [splitOn, h]
  simp [piecesBetween, List.intercalate, replaceAt]

end Foundations
