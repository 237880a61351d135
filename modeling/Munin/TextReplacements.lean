import Mathlib.Algebra.GroupWithZero.Nat
import Munin.Foundations.Occurrences
import Mathlib.Algebra.BigOperators.Group.List.Basic

/-!
# Replacements of text

An edit of a document or a field names the passage to find and the text to put there. Edits are
applied in their order, each to what the ones before it have made. An edit without `replaceAll` is
refused if the search finds its passage twice.

The search goes on behind each place that it finds, so two places that overlap count once. What
holds at an accepted edit is therefore `HitsFirst`: the first place of the passage is replaced, and
any other place overlaps it. The place is the only one exactly if no two places overlap.
-/

namespace Munin

open Foundations

variable {α : Type*} [DecidableEq α]

/-- An edit of a text. -/
structure TextReplacement (α : Type*) where
  /-- The passage to find. -/
  oldText : List α
  /-- The text to put in its place. -/
  newText : List α
  /-- Replace every occurrence of the passage. -/
  replaceAll : Option Bool

/-- Why an edit is refused. -/
inductive RefusalReason where
  | noMatch
  | ambiguous
  deriving DecidableEq

/-- The edit that is refused, with the number of its matches. -/
structure TextReplacementFailure where
  index : ℕ
  reason : RefusalReason
  found : ℕ
  deriving DecidableEq

/-- Texts that have been edited, and the number of places replaced in them. -/
abbrev EditedTexts (α : Type*) := List (List α) × ℕ

/-- The counting loop: each search starts behind the place found before. -/
def countLoop (haystack needle : List α) : ℕ → ℕ → ℕ → ℕ
  | 0, count, _ => count
  | fuel + 1, count, start =>
    match indexOf needle haystack start with
    | none => count
    | some i => countLoop haystack needle fuel (count + 1) (i + needle.length)

/-- How often a passage is found in a text. -/
def countOccurrences (haystack needle : List α) : ℕ :=
  if needle.length = 0 then 0 else countLoop haystack needle (haystack.length + 1) 0 0

/-- How often the passage of an edit is found in the texts. -/
def matchesIn (texts : List (List α)) (edit : TextReplacement α) : ℕ :=
  texts.foldl (fun sum text => sum + countOccurrences text edit.oldText) 0

/-- One turn of `applyTextReplacements`. -/
def applyEdit (edited : EditedTexts α) (index : ℕ) (edit : TextReplacement α) :
    Except TextReplacementFailure (EditedTexts α) :=
  let found := matchesIn edited.1 edit
  if found = 0 then
    .error ⟨index, .noMatch, found⟩
  else if 1 < found ∧ edit.replaceAll ≠ some true then
    .error ⟨index, .ambiguous, found⟩
  else
    .ok (edited.1.map fun text => edit.newText.intercalate (splitOn edit.oldText text),
      edited.2 + found)

/-- The turns of `applyTextReplacements` from the edit at `index` on. -/
def applyEdits (edited : EditedTexts α) : ℕ → List (TextReplacement α) →
    Except TextReplacementFailure (EditedTexts α)
  | _, [] => .ok edited
  | index, edit :: edits =>
    match applyEdit edited index edit with
    | .error failure => .error failure
    | .ok edited' => applyEdits edited' (index + 1) edits

def applyTextReplacements (texts : List (List α)) (replacements : List (TextReplacement α)) :
    Except TextReplacementFailure (EditedTexts α) :=
  applyEdits (texts, 0) 0 replacements

/-! ### Counting -/

/-- The counting loop counts the places that a scan finds. -/
theorem countLoop_eq (haystack needle : List α) (fuel count start : ℕ) :
    countLoop haystack needle fuel count start =
      count + (scanFrom needle haystack fuel start).length := by
  induction fuel generalizing count start with
  | zero => rfl
  | succ fuel ih =>
    rw [countLoop, scanFrom]
    cases indexOf needle haystack start with
    | none => rfl
    | some i =>
      dsimp only
      rw [ih, List.length_cons]
      omega

theorem countOccurrences_eq {haystack needle : List α} (hneedle : needle ≠ []) :
    countOccurrences haystack needle = (scan needle haystack).length := by
  have hlength : needle.length ≠ 0 := fun h => hneedle (List.length_eq_zero_iff.1 h)
  rw [countOccurrences, if_neg hlength, countLoop_eq, Nat.zero_add, scan]

@[simp]
theorem countOccurrences_nil (haystack : List α) : countOccurrences haystack [] = 0 := rfl

theorem matchesIn_eq (texts : List (List α)) (edit : TextReplacement α) :
    matchesIn texts edit = (texts.map fun text => countOccurrences text edit.oldText).sum := by
  rw [matchesIn, List.sum_eq_foldl, List.foldl_map]

variable {texts : List (List α)} {edit : TextReplacement α} {edited : EditedTexts α} {index : ℕ}

/-- An empty passage is never found. -/
theorem oldText_ne_nil (h : matchesIn texts edit ≠ 0) : edit.oldText ≠ [] := by
  intro hnil
  rw [matchesIn_eq, hnil] at h
  simp at h

/-- A passage found once is found in one text. -/
theorem exists_of_matchesIn_one (h : matchesIn texts edit = 1) :
    ∃ before text after i, texts = before ++ text :: after ∧
      scan edit.oldText text = [i] ∧
      ∀ other ∈ before ++ after, scan edit.oldText other = [] := by
  have hword : edit.oldText ≠ [] := oldText_ne_nil (h.trans_ne Nat.one_ne_zero)
  rw [matchesIn_eq] at h
  induction texts with
  | nil => simp at h
  | cons text texts ih =>
    rw [List.map_cons, List.sum_cons, countOccurrences_eq hword] at h
    by_cases hfirst : scan edit.oldText text = []
    · rw [hfirst, List.length_nil, Nat.zero_add] at h
      obtain ⟨before, found, after, i, rfl, hfound, hothers⟩ := ih h
      refine ⟨text :: before, found, after, i, rfl, hfound, ?_⟩
      intro other hother
      rcases List.mem_cons.1 hother with rfl | hother
      · exact hfirst
      · exact hothers other hother
    · have hpos := List.length_pos_iff.2 hfirst
      obtain ⟨i, hi⟩ := List.length_eq_one_iff.1 (by omega : (scan edit.oldText text).length = 1)
      refine ⟨[], text, texts, i, rfl, hi, fun other hother => ?_⟩
      have hsum : (texts.map fun t => countOccurrences t edit.oldText).sum = 0 := by omega
      have hzero := List.sum_eq_zero_iff_forall_eq_nat.1 hsum _ (List.mem_map_of_mem hother)
      rw [countOccurrences_eq hword] at hzero
      exact List.length_eq_zero_iff.1 hzero

/-! ### One edit -/

variable {edited' : EditedTexts α}

/-- What an accepted edit has found and done. -/
theorem applyEdit_eq_ok (h : applyEdit edited index edit = .ok edited') :
    matchesIn edited.1 edit ≠ 0 ∧ (edit.replaceAll ≠ some true → matchesIn edited.1 edit = 1) ∧
      edited' = (edited.1.map fun text => edit.newText.intercalate (splitOn edit.oldText text),
        edited.2 + matchesIn edited.1 edit) := by
  unfold applyEdit at h
  dsimp only at h
  split_ifs at h with hzero hmany
  refine ⟨hzero, fun hnot => ?_, (Except.ok.inj h).symm⟩
  by_contra hne
  exact hmany ⟨by omega, hnot⟩

/-- The edits before an accepted one are accepted too. -/
theorem applyEdits_append (before : List (TextReplacement α)) (edits : List (TextReplacement α)) :
    applyEdits edited index (before ++ edits) =
      (applyEdits edited index before).bind fun edited' =>
        applyEdits edited' (index + before.length) edits := by
  induction before generalizing edited index with
  | nil => rfl
  | cons edit before ih =>
    rw [List.cons_append, applyEdits, applyEdits]
    split
    · rfl
    · rw [ih, List.length_cons, Nat.add_assoc, Nat.add_comm 1]

/-! ### All edits -/

/-- A text after some edits. -/
def editedText : List (TextReplacement α) → List α → List α
  | [], text => text
  | edit :: edits, text =>
    editedText edits (edit.newText.intercalate (splitOn edit.oldText text))

/-- How many places of a text some edits replace. -/
def replacedIn : List (TextReplacement α) → List α → ℕ
  | [], _ => 0
  | edit :: edits, text =>
    countOccurrences text edit.oldText +
      replacedIn edits (edit.newText.intercalate (splitOn edit.oldText text))

/-- **Accepted edits work on each text by itself**, and what they report is the sum. -/
theorem applyEdits_eq_ok
    {edits : List (TextReplacement α)} (h : applyEdits edited index edits = .ok edited') :
    edited' = (edited.1.map (editedText edits),
      edited.2 + (edited.1.map (replacedIn edits)).sum) := by
  induction edits generalizing edited index with
  | nil =>
    obtain rfl := Except.ok.inj h
    have hzero : (edited.1.map (replacedIn [])).sum = 0 :=
      List.sum_eq_zero_iff_forall_eq_nat.2 fun n hn => by
        obtain ⟨text, -, rfl⟩ := List.mem_map.1 hn
        rfl
    rw [hzero]
    exact Prod.ext (List.map_id' _).symm rfl
  | cons edit edits ih =>
    rw [applyEdits] at h
    split at h
    · cases h
    · rename_i middle hmiddle
      obtain ⟨-, -, rfl⟩ := applyEdit_eq_ok hmiddle
      rw [ih h, matchesIn_eq]
      refine Prod.ext ?_ ?_ <;> dsimp only
      · rw [List.map_map]
        rfl
      · rw [List.map_map, Nat.add_assoc, ← List.sum_map_add]
        rfl

/-- The edit has hit the first place `i` of its passage, in the text at `k`: any other place of the
passage, in whichever text, overlaps that one, and nothing else is replaced. -/
structure HitsFirst (edit : TextReplacement α) (texts texts' : List (List α)) (k i : ℕ)
    (text : List α) : Prop where
  /-- The text with the passage. -/
  text_eq : texts[k]? = some text
  /-- The passage stands there. -/
  occurs : OccursAt edit.oldText text i
  /-- Any other place of the passage begins behind this one and within it. -/
  others : ∀ k' text' j, texts[k']? = some text' → OccursAt edit.oldText text' j →
    k' = k ∧ i ≤ j ∧ j < i + edit.oldText.length
  /-- The place is the only one, unless two places overlap. -/
  unique_iff : (∀ k' text' j, texts[k']? = some text' →
      (OccursAt edit.oldText text' j ↔ k' = k ∧ j = i)) ↔
    ∀ text' ∈ texts, NeverOverlaps edit.oldText text'
  /-- This place is replaced, and all else is as it was. -/
  replaced : texts' = texts.set k (replaceAt text i edit.oldText.length edit.newText)

/-- A passage found once is replaced at its first place. -/
theorem hitsFirst_of_matchesIn_one (h : matchesIn texts edit = 1) :
    ∃ k i text, HitsFirst edit texts
      (texts.map fun text => edit.newText.intercalate (splitOn edit.oldText text)) k i text := by
  have hword : edit.oldText ≠ [] := oldText_ne_nil (h.trans_ne Nat.one_ne_zero)
  obtain ⟨before, text, after, i, rfl, hfound, hothers⟩ := exists_of_matchesIn_one h
  have htext : (before ++ text :: after)[before.length]? = some text := by simp
  have hi : OccursAt edit.oldText text i := occursAt_of_mem_scan (by rw [hfound]; simp)
  -- a text elsewhere in the list does not have the passage
  have helse : ∀ k' text', (before ++ text :: after)[k']? = some text' → k' ≠ before.length →
      scan edit.oldText text' = [] := by
    intro k' text' hk' hne
    rcases Nat.lt_or_gt_of_ne hne with hlt | hgt
    · rw [List.getElem?_append_left hlt] at hk'
      exact hothers _ (List.mem_append_left _ (List.mem_of_getElem? hk'))
    · rw [List.getElem?_append_right (Nat.le_of_lt hgt), List.getElem?_cons, if_neg (by omega)] at hk'
      exact hothers _ (List.mem_append_right _ (List.mem_of_getElem? hk'))
  have hsame : ∀ {k' text' j}, (before ++ text :: after)[k']? = some text' →
      OccursAt edit.oldText text' j → k' = before.length ∧ text' = text := by
    intro k' text' j hk' hj
    have hk : k' = before.length := by
      by_contra hne
      exact (scan_eq_nil_iff hword).1 (helse k' text' hk' hne) j hj
    rw [hk, htext] at hk'
    exact ⟨hk, (Option.some.inj hk').symm⟩
  refine ⟨before.length, i, text, htext, hi, fun k' text' j hk' hj => ?_, ?_, ?_⟩
  · obtain ⟨rfl, rfl⟩ := hsame hk' hj
    obtain ⟨first, hfirst, hle, hlt⟩ := exists_mem_scan hword hj
    rw [hfound, List.mem_singleton] at hfirst
    subst hfirst
    exact ⟨rfl, hle, hlt⟩
  · refine ⟨fun hunique text' htext' => ?_, fun hnever k' text' j hk' => ?_⟩
    · obtain ⟨k', hk'⟩ := List.mem_iff_getElem?.1 htext'
      by_cases hk : k' = before.length
      · rw [hk, htext] at hk'
        obtain rfl := Option.some.inj hk'
        refine (occursAt_iff_of_scan_single hword hfound).1 fun j => ?_
        simpa using hunique before.length text j htext
      · intro j l hj
        exact absurd hj ((scan_eq_nil_iff hword).1 (helse k' text' hk' hk) j)
    · have hmem := hnever text (List.mem_of_getElem? htext)
      have honly := (occursAt_iff_of_scan_single hword hfound).2 hmem
      refine ⟨fun hj => ?_, ?_⟩
      · obtain ⟨rfl, rfl⟩ := hsame hk' hj
        exact ⟨rfl, (honly j).1 hj⟩
      · rintro ⟨rfl, rfl⟩
        rw [htext] at hk'
        obtain rfl := Option.some.inj hk'
        exact hi
  · have hkeep : ∀ l : List (List α), (∀ other ∈ l, scan edit.oldText other = []) →
        (l.map fun text => edit.newText.intercalate (splitOn edit.oldText text)) = l := by
      intro l hl
      rw [List.map_congr_left fun other hother => intercalate_splitOn_nil (hl other hother) _]
      exact List.map_id' l
    rw [List.map_append, List.map_cons, intercalate_splitOn_single hfound,
      hkeep before fun o ho => hothers o (List.mem_append_left _ ho),
      hkeep after fun o ho => hothers o (List.mem_append_right _ ho)]
    simp

/-! ### An edit without `replaceAll` -/

/-- An edit without `replaceAll` that is accepted at its turn replaces the first place of its
passage, and every other place of the passage overlaps that one. -/
theorem accepted_hits_first {texts current next : List (List α)} {n n' : ℕ}
    {before : List (TextReplacement α)} {edit : TextReplacement α}
    (hcurrent : applyTextReplacements texts before = .ok (current, n))
    (haccepted : applyTextReplacements texts (before ++ [edit]) = .ok (next, n'))
    (hone : edit.replaceAll ≠ some true) :
    n' = n + 1 ∧ ∃ k i text, HitsFirst edit current next k i text := by
  rw [applyTextReplacements] at hcurrent
  rw [applyTextReplacements, applyEdits_append, hcurrent] at haccepted
  change applyEdits (current, n) _ [edit] = _ at haccepted
  rw [applyEdits] at haccepted
  split at haccepted
  · cases haccepted
  · rename_i edited' hedit
    obtain ⟨-, hfound, rfl⟩ := applyEdit_eq_ok hedit
    have hnext := Except.ok.inj haccepted
    rw [hfound hone] at hnext
    obtain ⟨rfl, rfl⟩ := Prod.mk.inj hnext
    exact ⟨rfl, hitsFirst_of_matchesIn_one (hfound hone)⟩

/-- One edit of a word that stands once in the second of two texts. -/
theorem accepted_hits_first_sample :
    ∃ k i text, HitsFirst ⟨"fox".toList, "hen".toList, none⟩ ["the".toList, "red fox".toList]
      ["the".toList, "red hen".toList] k i text := by
  have hcurrent : applyTextReplacements ["the".toList, "red fox".toList] [] =
      .ok (["the".toList, "red fox".toList], 0) := rfl
  have haccepted : applyTextReplacements ["the".toList, "red fox".toList]
      ([] ++ [⟨"fox".toList, "hen".toList, none⟩]) =
        .ok (["the".toList, "red hen".toList], 1) := by
    decide +kernel
  exact (accepted_hits_first hcurrent haccepted (by decide)).2

/-- The passage `aa` stands in the text `aaa` at two positions, and an edit of it without
`replaceAll` is accepted. -/
theorem overlapping_passage_accepted :
    applyTextReplacements ["aaa".toList] [⟨"aa".toList, "b".toList, none⟩] =
        .ok (["ba".toList], 1) ∧
      OccursAt "aa".toList "aaa".toList 0 ∧ OccursAt "aa".toList "aaa".toList 1 := by
  decide +kernel

end Munin
