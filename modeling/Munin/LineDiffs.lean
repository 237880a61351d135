import Munin.Foundations.CommonSubsequence
import Munin.Foundations.Utf16Text

/-!
# Differences of two texts, line by line

A table of longest common subsequences is filled from its last entry backwards; a walk from the
first lines on then keeps a line that the texts share, and where they differ drops the line whose
loss costs less.

* **`lcsTable_correct`** — each entry is the length of a longest common subsequence of the lines
  from there on.
* **`diffWalk_faithful`**, **`diffWalk_optimal`** — the walk writes the lines of both texts, and keeps as
  many as a longest common subsequence has.
* **`diffLines_faithful_and_minimal`** — both facts for two texts, the second up to the limit.
-/

namespace Munin

open Foundations

/-! ### The texts' lines -/

/-- `text.replace(/\r\n/g, "\n")`. -/
def normalizeLineEnds (text : Utf16Text) : Utf16Text :=
  [0x0a].intercalate (splitOn [0x0d, 0x0a] text)

def splitLines (text : Utf16Text) : List Utf16Text := (normalizeLineEnds text).splitOn 0x0a

/-! ### The difference -/

/-- What becomes of a line. -/
inductive DiffOp where
  | context
  | added
  | removed
  deriving DecidableEq

/-- A line of the difference. -/
structure DiffLine (α : Type*) where
  op : DiffOp
  text : α

def maxDiffLines : ℕ := 2000

section Table

variable {α : Type*} [DecidableEq α] (a b : List α)

/-- A loop from `n - 1` down to `0`. -/
def downFrom {σ : Type*} : ℕ → (ℕ → σ → σ) → σ → σ
  | 0, _, s => s
  | n + 1, body, s => downFrom n body (body n s)

/-- A table with one entry changed. -/
def setEntry (table : ℕ → ℕ → ℕ) (i j value : ℕ) : ℕ → ℕ → ℕ :=
  Function.update table i (Function.update (table i) j value)

/-- The entry that the inner loop writes. -/
def lcsEntry (table : ℕ → ℕ → ℕ) (i j : ℕ) : ℕ :=
  if a[i]? = b[j]? then table (i + 1) (j + 1) + 1 else max (table (i + 1) j) (table i (j + 1))

/-- The table `lcs`, zero at first and filled backwards. -/
def lcsTable : ℕ → ℕ → ℕ :=
  downFrom a.length
    (fun i table => downFrom b.length (fun j table => setEntry table i j (lcsEntry a b table i j))
      table)
    fun _ _ => 0

/-- The last two loops: what is left of the first text is removed, and what is left of the second
is added. -/
def restOf (i j : ℕ) : List (DiffLine α) :=
  (a.drop i).map (DiffLine.mk .removed) ++ (b.drop j).map (DiffLine.mk .added)

/-- The walk from line `i` of the first text and line `j` of the second, for `fuel` turns at
most. -/
def diffWalk (lcs : ℕ → ℕ → ℕ) : ℕ → ℕ → ℕ → List (DiffLine α)
  | 0, i, j => restOf a b i j
  | fuel + 1, i, j =>
    match a[i]?, b[j]? with
    | some x, some y =>
      if x = y then ⟨.context, x⟩ :: diffWalk lcs fuel (i + 1) (j + 1)
      else if lcs i (j + 1) ≤ lcs (i + 1) j then ⟨.removed, x⟩ :: diffWalk lcs fuel (i + 1) j
      else ⟨.added, y⟩ :: diffWalk lcs fuel i (j + 1)
    | _, _ => restOf a b i j

/-- The difference of two lists of lines. -/
def diffOfLines : List (DiffLine α) :=
  if maxDiffLines < a.length ∨ maxDiffLines < b.length then
    a.map (DiffLine.mk .removed) ++ b.map (DiffLine.mk .added)
  else diffWalk a b (lcsTable a b) (a.length + b.length) 0 0

end Table

def diffLines (before after : Utf16Text) : List (DiffLine Utf16Text) :=
  diffOfLines (splitLines before) (splitLines after)

/-! ### The table -/

theorem downFrom_rule {σ : Type*} {P : ℕ → σ → Prop} {n : ℕ} {body : ℕ → σ → σ} {s : σ}
    (hfirst : P n s) (hstep : ∀ k < n, ∀ s, P (k + 1) s → P k (body k s)) :
    P 0 (downFrom n body s) := by
  induction n generalizing s with
  | zero => exact hfirst
  | succ n ih =>
    exact ih (hstep n (Nat.lt_succ_self n) s hfirst) fun k hk => hstep k (by omega)

section Proofs

variable {α : Type*} [DecidableEq α] {a b : List α}

@[simp]
theorem setEntry_self (table : ℕ → ℕ → ℕ) (i j value : ℕ) :
    setEntry table i j value i j = value := by
  simp [setEntry]

variable {i j : ℕ}

theorem setEntry_of_ne (table : ℕ → ℕ → ℕ) {k l : ℕ} (value : ℕ) (h : ¬ (k = i ∧ l = j)) :
    setEntry table i j value k l = table k l := by
  unfold setEntry
  by_cases hk : k = i
  · subst hk
    rw [Function.update_self, Function.update_of_ne fun hl => h ⟨rfl, hl⟩]
  · rw [Function.update_of_ne hk]

/-- The entry is right. -/
def RightEntry (a b : List α) (table : ℕ → ℕ → ℕ) (k l : ℕ) : Prop :=
  LongestCommon (a.drop k) (b.drop l) (table k l)

/-- The table is right behind entry `j` of row `i`: in the rows below, in the rest of the row, and
at the ends of the two texts. -/
def RightBehind (a b : List α) (i j : ℕ) (table : ℕ → ℕ → ℕ) : Prop :=
  ∀ k l, k ≤ a.length → l ≤ b.length → i < k ∨ (k = i ∧ j ≤ l) ∨ k = a.length ∨ l = b.length →
    RightEntry a b table k l

/-- An entry that the loop writes is right if its neighbours are. -/
theorem lcsEntry_ok {table : ℕ → ℕ → ℕ} (hi : i < a.length) (hj : j < b.length)
    (hdiag : RightEntry a b table (i + 1) (j + 1)) (hbelow : RightEntry a b table (i + 1) j)
    (hright : RightEntry a b table i (j + 1)) :
    LongestCommon (a.drop i) (b.drop j) (lcsEntry a b table i j) := by
  unfold lcsEntry
  rw [List.getElem?_eq_getElem hi, List.getElem?_eq_getElem hj]
  unfold RightEntry at *
  rw [List.drop_eq_getElem_cons hi] at hright ⊢
  rw [List.drop_eq_getElem_cons hj] at hbelow ⊢
  split_ifs with heq
  · rw [← Option.some.inj heq]
    exact hdiag.cons_cons _
  · exact hbelow.max_of_ne (fun h => heq (congrArg some h)) hright

/-- Writing an entry extends the part that is right. -/
theorem rightBehind_setEntry (hi : i < a.length) (hj : j < b.length)
    {table : ℕ → ℕ → ℕ} (h : RightBehind a b i (j + 1) table) :
    RightBehind a b i j (setEntry table i j (lcsEntry a b table i j)) := by
  intro k l hk hl hkl
  by_cases hentry : k = i ∧ l = j
  · obtain ⟨rfl, rfl⟩ := hentry
    rw [RightEntry, setEntry_self]
    exact lcsEntry_ok hi hj (h _ _ (by omega) (by omega) (by omega))
      (h _ _ (by omega) (by omega) (by omega)) (h _ _ (by omega) (by omega) (by omega))
  · rw [RightEntry, setEntry_of_ne _ _ hentry]
    exact h k l hk hl (by omega)

/-- Every entry of the table is the length of a longest common subsequence of what is left of the
texts. -/
theorem lcsTable_correct (a b : List α) (hi : i ≤ a.length) (hj : j ≤ b.length) :
    RightEntry a b (lcsTable a b) i j := by
  have hrows : RightBehind a b 0 0 (lcsTable a b) := by
    refine downFrom_rule (P := fun i => RightBehind a b i 0) ?_ fun i hi table h => ?_
    · intro k l hk hl hkl
      have hend : k = a.length ∨ l = b.length := by omega
      rcases hend with rfl | rfl
      · rw [RightEntry, List.drop_length]
        exact longestCommon_nil_left _
      · rw [RightEntry, List.drop_length]
        exact longestCommon_nil_right _
    · refine downFrom_rule (P := fun j => RightBehind a b i j) ?_
        fun j hj table => rightBehind_setEntry hi hj
      exact fun k l hk hl hkl => h k l hk hl (by omega)
  exact hrows i j hi hj (by omega)

/-! ### The walk -/

/-- The removed and context lines of a difference. -/
def linesBefore (diff : List (DiffLine α)) : List α :=
  (diff.filter fun line => line.op ≠ .added).map DiffLine.text

/-- The added and context lines of a difference. -/
def linesAfter (diff : List (DiffLine α)) : List α :=
  (diff.filter fun line => line.op ≠ .removed).map DiffLine.text

/-- The number of its context lines. -/
def contextCount (diff : List (DiffLine α)) : ℕ :=
  (diff.filter fun line => line.op = .context).length

omit [DecidableEq α] in
/-- All lines of one text removed and all of another added. -/
theorem lines_removed_added (a b : List α) :
    linesBefore (a.map (DiffLine.mk .removed) ++ b.map (DiffLine.mk .added)) = a ∧
      linesAfter (a.map (DiffLine.mk .removed) ++ b.map (DiffLine.mk .added)) = b ∧
      contextCount (a.map (DiffLine.mk .removed) ++ b.map (DiffLine.mk .added)) = 0 := by
  simp [linesBefore, linesAfter, contextCount, List.filter_map, Function.comp_def]

/-- Whatever the table says, the walk writes what is left of the two texts. -/
theorem diffWalk_faithful (a b : List α) (lcs : ℕ → ℕ → ℕ) (fuel i j : ℕ) :
    linesBefore (diffWalk a b lcs fuel i j) = a.drop i ∧
      linesAfter (diffWalk a b lcs fuel i j) = b.drop j := by
  induction fuel generalizing i j with
  | zero => exact ⟨(lines_removed_added _ _).1, (lines_removed_added _ _).2.1⟩
  | succ fuel ih =>
    rw [diffWalk]
    split
    · rename_i x y hx hy
      obtain ⟨hi, rfl⟩ := List.getElem?_eq_some_iff.1 hx
      obtain ⟨hj, rfl⟩ := List.getElem?_eq_some_iff.1 hy
      split_ifs with heq hle
      · obtain ⟨hbefore, hafter⟩ := ih (i + 1) (j + 1)
        rw [List.drop_eq_getElem_cons hi, List.drop_eq_getElem_cons hj, ← hbefore, ← hafter, ← heq]
        exact ⟨rfl, rfl⟩
      · obtain ⟨hbefore, hafter⟩ := ih (i + 1) j
        rw [List.drop_eq_getElem_cons hi, ← hbefore, ← hafter]
        exact ⟨rfl, rfl⟩
      · obtain ⟨hbefore, hafter⟩ := ih i (j + 1)
        rw [List.drop_eq_getElem_cons hj, ← hbefore, ← hafter]
        exact ⟨rfl, rfl⟩
    · exact ⟨(lines_removed_added _ _).1, (lines_removed_added _ _).2.1⟩

/-- By a right table, the walk keeps as many lines as a longest common subsequence of what is left
of the two texts has. -/
theorem diffWalk_optimal {lcs : ℕ → ℕ → ℕ}
    (hlcs : ∀ i ≤ a.length, ∀ j ≤ b.length, RightEntry a b lcs i j) {fuel : ℕ}
    (hi : i ≤ a.length) (hj : j ≤ b.length) (hfuel : (a.length - i) + (b.length - j) ≤ fuel) :
    LongestCommon (a.drop i) (b.drop j) (contextCount (diffWalk a b lcs fuel i j)) := by
  have hend : ∀ {i j : ℕ}, a.length ≤ i ∨ b.length ≤ j →
      LongestCommon (a.drop i) (b.drop j) (contextCount (restOf a b i j)) := by
    intro i j h
    rw [restOf, (lines_removed_added _ _).2.2]
    rcases h with h | h
    · rw [List.drop_of_length_le h]
      exact longestCommon_nil_left _
    · rw [List.drop_of_length_le h]
      exact longestCommon_nil_right _
  induction fuel generalizing i j with
  | zero => exact hend (.inl (by omega))
  | succ fuel ih =>
    rw [diffWalk]
    split
    · rename_i x y hx hy
      obtain ⟨hi', rfl⟩ := List.getElem?_eq_some_iff.1 hx
      obtain ⟨hj', rfl⟩ := List.getElem?_eq_some_iff.1 hy
      have hbelow := hlcs (i + 1) hi' j hj
      have hright := hlcs i hi (j + 1) hj'
      unfold RightEntry at hbelow hright
      split_ifs with heq hle
      · have hdiag := (ih hi' hj' (by omega)).cons_cons a[i]
        rw [List.drop_eq_getElem_cons hi', List.drop_eq_getElem_cons hj', ← heq]
        exact hdiag
      · -- losing the line of the first text costs no more
        have hcount := (ih hi' hj (by omega)).unique hbelow
        rw [List.drop_eq_getElem_cons hj'] at hbelow
        rw [List.drop_eq_getElem_cons hi'] at hright
        have hmax := hbelow.max_of_ne heq hright
        rw [Nat.max_eq_left hle, ← hcount] at hmax
        rw [List.drop_eq_getElem_cons hi', List.drop_eq_getElem_cons hj']
        exact hmax
      · have hcount := (ih hi hj' (by omega)).unique hright
        rw [List.drop_eq_getElem_cons hj'] at hbelow
        rw [List.drop_eq_getElem_cons hi'] at hright
        have hmax := hbelow.max_of_ne heq hright
        rw [Nat.max_eq_right (Nat.le_of_lt (Nat.not_le.1 hle)), ← hcount] at hmax
        rw [List.drop_eq_getElem_cons hi', List.drop_eq_getElem_cons hj']
        exact hmax
    · rename_i hnone
      refine hend ?_
      by_contra hboth
      exact hnone _ _ (List.getElem?_eq_getElem (by omega)) (List.getElem?_eq_getElem (by omega))

end Proofs

/-! ### The difference of two texts -/

/-- The removed and context lines are the lines of the first text and the added and context lines
are those of the second. Up to the limit there are as many context lines as a longest common
subsequence has. -/
theorem diffLines_faithful_and_minimal (before after : Utf16Text) :
    linesBefore (diffLines before after) = splitLines before ∧
      linesAfter (diffLines before after) = splitLines after ∧
      ((splitLines before).length ≤ maxDiffLines → (splitLines after).length ≤ maxDiffLines →
        LongestCommon (splitLines before) (splitLines after)
          (contextCount (diffLines before after))) := by
  unfold diffLines diffOfLines
  split_ifs with hlimit
  · refine ⟨(lines_removed_added _ _).1, (lines_removed_added _ _).2.1, fun hbefore hafter => ?_⟩
    exact absurd hlimit (by omega)
  · obtain ⟨hbefore, hafter⟩ := diffWalk_faithful (splitLines before) (splitLines after)
      (lcsTable (splitLines before) (splitLines after))
      ((splitLines before).length + (splitLines after).length) 0 0
    exact ⟨hbefore, hafter, fun _ _ => diffWalk_optimal (fun i hi j hj => lcsTable_correct _ _ hi hj)
      (Nat.zero_le _) (Nat.zero_le _) le_rfl⟩

/-- Two texts of three lines that share two. -/
theorem diffLines_sample :
    LongestCommon (splitLines (utf16 "a\r\nb\nc")) (splitLines (utf16 "a\nc\nd")) 2 :=
  (by decide +kernel : contextCount (diffLines (utf16 "a\r\nb\nc") (utf16 "a\nc\nd")) = 2) ▸
    (diffLines_faithful_and_minimal (utf16 "a\r\nb\nc") (utf16 "a\nc\nd")).2.2
      (by decide +kernel) (by decide +kernel)

end Munin
