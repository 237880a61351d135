import Munin.Foundations.KeyOrder
import Munin.Foundations.Occurrences
import Mathlib.Data.List.DropRight
import Mathlib.Data.List.GetD

/-!
# Texts of UTF-16 units

A JavaScript string is a list of UTF-16 units, and its positions count units. A character outside
the basic plane is a pair of units, and a cut may fall between the two.

* **`trimUnits`, `sliceUnits`** — `trim` and `slice`; where the trimmed slice of a text stands in
  the text (`trimmed_slice_spec`).
* **`WellFormed`** — no unit of a pair stands alone. Strings of characters are so
  (`wellFormed_utf16`), trimming does not change it (`wellFormed_trimUnits`), and a slice of such a
  text is so exactly if neither of its ends is inside a pair (`wellFormed_sliceUnits`).
-/

namespace Foundations

/-- A text as JavaScript has it. -/
abbrev Utf16Text := List ℕ

instance Utf16Text.instLawfulBEq : LawfulBEq Utf16Text := inferInstance

/-- The unit at a position, zero behind the end. -/
def unitAt (text : Utf16Text) (i : ℕ) : ℕ := text.getD i 0

/-- Whether a unit is the first of a pair. -/
def isLead (u : ℕ) : Bool := 0xd800 ≤ u && u ≤ 0xdbff

/-- Whether a unit is the second of a pair. -/
def isTrail (u : ℕ) : Bool := 0xdc00 ≤ u && u ≤ 0xdfff

/-- The units that `trim` removes; a regular expression's `\s` matches the same. -/
def isBlankUnit (u : ℕ) : Bool :=
  (9 ≤ u && u ≤ 13) || u == 0x20 || u == 0xa0 || u == 0x1680 || (0x2000 ≤ u && u ≤ 0x200a) ||
    u == 0x2028 || u == 0x2029 || u == 0x202f || u == 0x205f || u == 0x3000 || u == 0xfeff

/-- The lower case of an ASCII letter. -/
def asciiLower (u : ℕ) : ℕ := if 0x41 ≤ u ∧ u ≤ 0x5a then u + 0x20 else u

/-- `text.trim()`. -/
def trimUnits (text : Utf16Text) : Utf16Text :=
  (text.dropWhile isBlankUnit).rdropWhile isBlankUnit

/-- `text.slice(i, j)`, for positions within the text. -/
def sliceUnits (text : Utf16Text) (i j : ℕ) : Utf16Text := (text.drop i).take (j - i)

/-- No unit of a pair stands alone: the text does not begin with a second unit, and first units
stand exactly before second ones. -/
def WellFormed (text : Utf16Text) : Prop :=
  isTrail (unitAt text 0) = false ∧
    ∀ i, isLead (unitAt text i) = isTrail (unitAt text (i + 1))

/-- The position is between the two units of a pair. -/
def InsidePair (text : Utf16Text) (i : ℕ) : Prop :=
  0 < i ∧ isLead (unitAt text (i - 1)) = true ∧ isTrail (unitAt text i) = true

/-! ### Units -/

@[simp]
theorem unitAt_nil (i : ℕ) : unitAt [] i = 0 := rfl

@[simp]
theorem unitAt_cons_zero (u : ℕ) (text : Utf16Text) : unitAt (u :: text) 0 = u := rfl

@[simp]
theorem unitAt_cons_succ (u : ℕ) (text : Utf16Text) (i : ℕ) :
    unitAt (u :: text) (i + 1) = unitAt text i := rfl

variable {text : Utf16Text} {i u j k : ℕ}

theorem unitAt_append_left (hi : i < text.length) (rest : Utf16Text) :
    unitAt (text ++ rest) i = unitAt text i :=
  List.getD_append _ _ _ _ hi

theorem unitAt_append_right (hi : text.length ≤ i)
    (rest : Utf16Text) : unitAt (text ++ rest) i = unitAt rest (i - text.length) :=
  List.getD_append_right _ _ _ _ hi

theorem unitAt_of_length_le (hi : text.length ≤ i) : unitAt text i = 0 :=
  List.getD_eq_default _ _ hi

theorem unitAt_eq_getElem (hi : i < text.length) : unitAt text i = text[i] :=
  List.getD_eq_getElem _ _ hi

/-- A blank unit is no part of a pair. -/
theorem lead_trail_of_blank (h : isBlankUnit u = true) : isLead u = false ∧ isTrail u = false := by
  simp only [isBlankUnit, Bool.or_eq_true, Bool.and_eq_true, decide_eq_true_eq, beq_iff_eq] at h
  simp only [isLead, isTrail, Bool.and_eq_false_iff, decide_eq_false_iff_not]
  omega

/-! ### Slices -/

theorem length_sliceUnits (hj : j ≤ text.length) : (sliceUnits text i j).length = j - i := by
  rw [sliceUnits, List.length_take, List.length_drop]
  omega

theorem unitAt_sliceUnits (text : Utf16Text) (hk : k < j - i) :
    unitAt (sliceUnits text i j) k = unitAt text (i + k) := by
  simp only [unitAt, sliceUnits, List.getD_eq_getElem?_getD, List.getElem?_take_of_lt hk,
    List.getElem?_drop]

theorem unitAt_sliceUnits_of_le (text : Utf16Text) (hk : j - i ≤ k) :
    unitAt (sliceUnits text i j) k = 0 :=
  unitAt_of_length_le ((List.length_take_le _ _).trans hk)

/-- What stands in a slice stands in the text. -/
theorem occursAt_of_slice {word : Utf16Text}
    (h : OccursAt word (sliceUnits text i j) k) : OccursAt word text (i + k) := by
  have hprefix : (sliceUnits text i j).drop k <+: text.drop (i + k) := by
    rw [sliceUnits, List.drop_take, List.drop_drop]
    exact List.take_prefix _ _
  exact List.IsPrefix.trans h hprefix

/-! ### Trimming -/

/-- A text is its trimmed text between blanks. -/
theorem exists_trimUnits (text : Utf16Text) :
    ∃ before after, text = before ++ trimUnits text ++ after ∧
      (∀ u ∈ before, isBlankUnit u = true) ∧ ∀ u ∈ after, isBlankUnit u = true := by
  refine ⟨text.takeWhile isBlankUnit, (text.dropWhile isBlankUnit).rtakeWhile isBlankUnit, ?_,
    fun u hu => List.mem_takeWhile_imp hu, fun u hu => List.mem_rtakeWhile_imp hu⟩
  rw [trimUnits, List.append_assoc, List.rdropWhile_append_rtakeWhile,
    List.takeWhile_append_dropWhile]

theorem head_trimUnits (h : trimUnits text ≠ []) :
    isBlankUnit (unitAt (trimUnits text) 0) = false := by
  obtain ⟨rest, hrest⟩ := List.rdropWhile_prefix isBlankUnit (l := text.dropWhile isBlankUnit)
  have hhead : unitAt (text.dropWhile isBlankUnit) 0 = unitAt (trimUnits text) 0 := by
    rw [← hrest]
    exact unitAt_append_left (List.length_pos_iff.2 h) rest
  have hne : text.dropWhile isBlankUnit ≠ [] := by
    intro hnil
    exact h (by rw [trimUnits, hnil, List.rdropWhile_nil])
  have hnot := List.head_dropWhile_not isBlankUnit hne
  rw [← hhead, unitAt_eq_getElem (List.length_pos_iff.2 hne), List.getElem_zero]
  exact hnot

theorem last_trimUnits (h : trimUnits text ≠ []) :
    isBlankUnit (unitAt (trimUnits text) ((trimUnits text).length - 1)) = false := by
  have hpos := List.length_pos_iff.2 h
  have hnot := List.rdropWhile_last_not isBlankUnit (text.dropWhile isBlankUnit) h
  rw [unitAt_eq_getElem (by omega), ← List.getLast_eq_getElem h]
  exact Bool.eq_false_iff.2 hnot

/-- Where the trimmed slice of a text stands: between blanks, and beginning and ending with
something else. -/
structure TrimmedSlice (text : Utf16Text) (i j p : ℕ) (content : Utf16Text) : Prop where
  /-- It is in the slice. -/
  start_le : i ≤ p
  le_stop : p + content.length ≤ j
  occurs : OccursAt content text p
  /-- What the slice has around it is blank. -/
  before : ∀ k, i ≤ k → k < p → isBlankUnit (unitAt text k) = true
  after : ∀ k, p + content.length ≤ k → k < j → isBlankUnit (unitAt text k) = true
  /-- It begins and ends with what is not blank. -/
  ends : content ≠ [] → isBlankUnit (unitAt text p) = false ∧
    isBlankUnit (unitAt text (p + content.length - 1)) = false

theorem unitAt_of_occursAt {word : Utf16Text} {p : ℕ} (h : OccursAt word text p)
    (hk : k < word.length) : unitAt text (p + k) = unitAt word k := by
  obtain ⟨rest, hrest⟩ := h
  have hdrop : unitAt text (p + k) = unitAt (text.drop p) k := by
    simp only [unitAt, List.getD_eq_getElem?_getD, List.getElem?_drop]
  rw [hdrop, ← hrest, unitAt_append_left hk]

theorem trimmed_slice_spec (hij : i ≤ j) (hj : j ≤ text.length) :
    ∃ p, TrimmedSlice text i j p (trimUnits (sliceUnits text i j)) := by
  obtain ⟨before, after, hslice, hbefore, hafter⟩ := exists_trimUnits (sliceUnits text i j)
  have hlength := congrArg List.length hslice
  rw [length_sliceUnits hj, List.length_append, List.length_append] at hlength
  set content := trimUnits (sliceUnits text i j) with hcontent
  have hoccurs : OccursAt content text (i + before.length) := by
    refine occursAt_of_slice (j := j) ?_
    rw [OccursAt, hslice, List.append_assoc, List.drop_left]
    exact List.prefix_append _ _
  have hunit : ∀ k, k < j - i → unitAt text (i + k) = unitAt (before ++ content ++ after) k :=
    fun k hk => by rw [← unitAt_sliceUnits text hk, hslice]
  refine ⟨i + before.length, ⟨by omega, by omega, hoccurs, fun k hk hk' => ?_,
    fun k hk hk' => ?_, fun hne => ⟨?_, ?_⟩⟩⟩
  · have hmem : k - i < before.length := by omega
    rw [← Nat.add_sub_cancel' hk, hunit _ (by omega), List.append_assoc, unitAt_append_left hmem,
      unitAt_eq_getElem hmem]
    exact hbefore _ (List.getElem_mem _)
  · have hle : (before ++ content).length ≤ k - i := by
      rw [List.length_append]
      omega
    have hmem : k - i - (before ++ content).length < after.length := by
      rw [List.length_append]
      omega
    rw [← Nat.add_sub_cancel' (by omega : i ≤ k), hunit _ (by omega), unitAt_append_right hle,
      unitAt_eq_getElem hmem]
    exact hafter _ (List.getElem_mem _)
  · have hfirst := unitAt_of_occursAt hoccurs (List.length_pos_iff.2 hne)
    rw [Nat.add_zero] at hfirst
    rw [hfirst]
    exact head_trimUnits hne
  · have hpos := List.length_pos_iff.2 hne
    rw [Nat.add_sub_assoc hpos, unitAt_of_occursAt hoccurs (by omega)]
    exact last_trimUnits hne

theorem trimUnits_cons (hu : isBlankUnit u = true) (text : Utf16Text) :
    trimUnits (u :: text) = trimUnits text := by
  rw [trimUnits, trimUnits, List.dropWhile_cons_of_pos hu]

theorem trimUnits_concat (hu : isBlankUnit u = true) (text : Utf16Text) :
    trimUnits (text ++ [u]) = trimUnits text := by
  rw [trimUnits, trimUnits, List.dropWhile_append]
  split_ifs with hnil
  · rw [List.isEmpty_iff.1 hnil, List.dropWhile_cons_of_pos hu, List.dropWhile_nil]
  · exact List.rdropWhile_concat_pos _ _ _ hu

/-- What is not blank stays. -/
theorem mem_trimUnits (h : u ∈ text) (hu : isBlankUnit u = false) : u ∈ trimUnits text := by
  obtain ⟨before, after, htext, hbefore, hafter⟩ := exists_trimUnits text
  rw [htext, List.mem_append, List.mem_append] at h
  rcases h with (h | h) | h
  · rw [hbefore u h] at hu
    cases hu
  · exact h
  · rw [hafter u h] at hu
    cases hu

theorem mem_of_mem_trimUnits (h : u ∈ trimUnits text) : u ∈ text :=
  (List.dropWhile_suffix _).subset ((List.rdropWhile_prefix _ _).subset h)

/-- A text that is not blank has something that is not. -/
theorem trimUnits_ne_nil_iff : trimUnits text ≠ [] ↔ ∃ u ∈ text, isBlankUnit u = false := by
  refine ⟨fun h => ⟨_, mem_of_mem_trimUnits ?_, head_trimUnits h⟩, fun ⟨u, hu, hink⟩ hnil => ?_⟩
  · rw [unitAt_eq_getElem (List.length_pos_iff.2 h)]
    exact List.getElem_mem _
  · have hmem := mem_trimUnits hu hink
    rw [hnil] at hmem
    exact List.not_mem_nil hmem

/-! ### Lines -/

theorem not_mem_of_mem_splitOn {α : Type*} [DecidableEq α] {c : α} {text line : List α}
    (h : line ∈ text.splitOn c) : c ∉ line := by
  induction text generalizing line with
  | nil =>
    rw [List.splitOn_eq_singleton List.not_mem_nil, List.mem_singleton] at h
    rw [h]
    exact List.not_mem_nil
  | cons d text ih =>
    rw [List.splitOn_cons_eq_if_modifyHead] at h
    split_ifs at h with hd
    · rcases List.mem_cons.1 h with rfl | h
      · exact List.not_mem_nil
      · exact ih h
    · obtain ⟨first, rest, hsplit⟩ := List.exists_cons_of_ne_nil (List.splitOn_ne_nil c text)
      rw [hsplit, List.modifyHead_cons] at h
      rw [hsplit] at ih
      rcases List.mem_cons.1 h with rfl | h
      · refine fun hc => (List.mem_cons.1 hc).elim (fun heq => hd ?_) (ih List.mem_cons_self)
        rw [heq]
        exact beq_self_eq_true d
      · exact ih (List.mem_cons_of_mem _ h)

/-- What some lines say: those that are not blank, without the blanks at their ends. -/
def inkLines (lines : List Utf16Text) : List Utf16Text :=
  (lines.map trimUnits).filter fun line => line ≠ []

theorem inkLines_append (lines lines' : List Utf16Text) :
    inkLines (lines ++ lines') = inkLines lines ++ inkLines lines' := by
  rw [inkLines, List.map_append, List.filter_append]
  rfl

theorem inkLines_cons_congr {line line' : Utf16Text} (h : trimUnits line = trimUnits line')
    (lines : List Utf16Text) : inkLines (line :: lines) = inkLines (line' :: lines) := by
  rw [inkLines, inkLines, List.map_cons, List.map_cons, h]

theorem inkLines_splitOn_cons (hu : isBlankUnit u = true) (text : Utf16Text) :
    inkLines ((u :: text).splitOn 0x0a) = inkLines (text.splitOn 0x0a) := by
  rw [List.splitOn_cons_eq_if_modifyHead]
  split_ifs
  · rfl
  · obtain ⟨first, rest, hsplit⟩ := List.exists_cons_of_ne_nil (List.splitOn_ne_nil 0x0a text)
    rw [hsplit, List.modifyHead_cons, inkLines_cons_congr (trimUnits_cons hu first)]

/-- A unit behind a text goes to its last line, or begins a new one. -/
theorem splitOn_concat_of_ne (hu : u ≠ 0x0a) (text : Utf16Text) :
    ∃ init last, text.splitOn 0x0a = init ++ [last] ∧
      (text ++ [u]).splitOn 0x0a = init ++ [last ++ [u]] := by
  induction text with
  | nil =>
    exact ⟨[], [], rfl, List.splitOn_eq_singleton fun h => hu (List.mem_singleton.1 h).symm⟩
  | cons v text ih =>
    obtain ⟨init, last, hsplit, hsplit'⟩ := ih
    rw [List.cons_append, List.splitOn_cons_eq_if_modifyHead, List.splitOn_cons_eq_if_modifyHead,
      hsplit, hsplit']
    split_ifs
    · exact ⟨[] :: init, last, rfl, rfl⟩
    · cases init with
      | nil => exact ⟨[], v :: last, rfl, rfl⟩
      | cons first init => exact ⟨(v :: first) :: init, last, rfl, rfl⟩

theorem inkLines_splitOn_concat (hu : isBlankUnit u = true) (text : Utf16Text) :
    inkLines ((text ++ [u]).splitOn 0x0a) = inkLines (text.splitOn 0x0a) := by
  by_cases hend : u = 0x0a
  · rw [hend, List.splitOn_append_cons_self, inkLines_append]
    exact List.append_nil _
  · obtain ⟨init, last, hsplit, hsplit'⟩ := splitOn_concat_of_ne hend text
    rw [hsplit, hsplit', inkLines_append, inkLines_append,
      inkLines_cons_congr (trimUnits_concat hu last)]

theorem inkLines_splitOn_dropWhile (text : Utf16Text) :
    inkLines ((text.dropWhile isBlankUnit).splitOn 0x0a) = inkLines (text.splitOn 0x0a) := by
  induction text with
  | nil => rfl
  | cons u text ih =>
    by_cases hu : isBlankUnit u = true
    · rw [List.dropWhile_cons_of_pos hu, ih, inkLines_splitOn_cons hu]
    · rw [List.dropWhile_cons_of_neg hu]

theorem inkLines_splitOn_rdropWhile (text : Utf16Text) :
    inkLines ((text.rdropWhile isBlankUnit).splitOn 0x0a) = inkLines (text.splitOn 0x0a) := by
  induction text using List.reverseRecOn with
  | nil => rfl
  | append_singleton text u ih =>
    by_cases hu : isBlankUnit u = true
    · rw [List.rdropWhile_concat_pos _ _ _ hu, ih, inkLines_splitOn_concat hu]
    · rw [List.rdropWhile_concat_neg _ _ _ hu]

/-- Trimming a text does not change what its lines say. -/
theorem inkLines_splitOn_trimUnits (text : Utf16Text) :
    inkLines ((trimUnits text).splitOn 0x0a) = inkLines (text.splitOn 0x0a) := by
  rw [trimUnits, inkLines_splitOn_rdropWhile, inkLines_splitOn_dropWhile]

/-- Joined lines say what the lines say. -/
theorem inkLines_splitOn_join {lines : List Utf16Text} (h : ∀ line ∈ lines, 0x0a ∉ line) :
    inkLines (([0x0a].intercalate lines).splitOn 0x0a) = inkLines lines := by
  by_cases hnil : lines = []
  · rw [hnil]
    rfl
  · rw [List.splitOn_intercalate 0x0a h hnil]

/-! ### Pairs -/

/-- A unit that is no part of a pair may stand before a text. -/
theorem wellFormed_cons (hu : isLead u = false ∧ isTrail u = false) :
    WellFormed (u :: text) ↔ WellFormed text := by
  refine ⟨fun h => ⟨?_, fun i => h.2 (i + 1)⟩, fun h => ⟨hu.2, fun i => ?_⟩⟩
  · rw [← unitAt_cons_succ u, ← h.2 0]
    exact hu.1
  · cases i with
    | zero => exact hu.1.trans h.1.symm
    | succ i => exact h.2 i

/-- A unit that is no part of a pair may stand behind a text. -/
theorem wellFormed_concat (hu : isLead u = false ∧ isTrail u = false) : WellFormed (text ++ [u]) ↔
    WellFormed text := by
  have hsame : ∀ i, isLead (unitAt (text ++ [u]) i) = isLead (unitAt text i) ∧
      isTrail (unitAt (text ++ [u]) i) = isTrail (unitAt text i) := by
    intro i
    by_cases hi : i < text.length
    · rw [unitAt_append_left hi]
      exact ⟨rfl, rfl⟩
    · rw [unitAt_append_right (Nat.not_lt.1 hi), unitAt_of_length_le (Nat.not_lt.1 hi)]
      cases i - text.length with
      | zero => exact hu
      | succ k => exact ⟨rfl, rfl⟩
  simp only [WellFormed, hsame]

theorem wellFormed_dropWhile (text : Utf16Text) :
    WellFormed (text.dropWhile isBlankUnit) ↔ WellFormed text := by
  induction text with
  | nil => exact Iff.rfl
  | cons u text ih =>
    by_cases hu : isBlankUnit u = true
    · rw [List.dropWhile_cons_of_pos hu, ih, wellFormed_cons (lead_trail_of_blank hu)]
    · rw [List.dropWhile_cons_of_neg hu]

theorem wellFormed_rdropWhile (text : Utf16Text) :
    WellFormed (text.rdropWhile isBlankUnit) ↔ WellFormed text := by
  induction text using List.reverseRecOn with
  | nil => exact Iff.rfl
  | append_singleton text u ih =>
    by_cases hu : isBlankUnit u = true
    · rw [List.rdropWhile_concat_pos _ _ _ hu, ih, wellFormed_concat (lead_trail_of_blank hu)]
    · rw [List.rdropWhile_concat_neg _ _ _ hu]

theorem wellFormed_trimUnits (text : Utf16Text) :
    WellFormed (trimUnits text) ↔ WellFormed text := by
  rw [trimUnits, wellFormed_rdropWhile, wellFormed_dropWhile]

/-- A slice of a well-formed text is well formed exactly if neither end is inside a pair. -/
theorem wellFormed_sliceUnits (h : WellFormed text) (hij : i < j) :
    WellFormed (sliceUnits text i j) ↔ ¬ InsidePair text i ∧ ¬ InsidePair text j := by
  have hlast : i + (j - i - 1) = j - 1 := by omega
  have hnext : j - 1 + 1 = j := by omega
  refine ⟨fun hslice => ⟨fun hi => ?_, fun hj => ?_⟩, fun ⟨hi, hj⟩ => ⟨?_, fun k => ?_⟩⟩
  · have hfirst := hslice.1
    rw [unitAt_sliceUnits text (by omega), Nat.add_zero] at hfirst
    exact absurd hi.2.2 (by rw [hfirst]; decide)
  · have hend := hslice.2 (j - i - 1)
    rw [unitAt_sliceUnits text (by omega), unitAt_sliceUnits_of_le text (by omega), hlast] at hend
    exact absurd hj.2.1 (by rw [hend]; decide)
  · rw [unitAt_sliceUnits text (by omega), Nat.add_zero]
    cases i with
    | zero => exact h.1
    | succ i =>
      refine Bool.eq_false_iff.2 fun htrail => hi ⟨by omega, ?_, htrail⟩
      rw [Nat.add_sub_cancel, h.2 i]
      exact htrail
  · rcases Nat.lt_trichotomy (k + 1) (j - i) with hlt | heq | hgt
    · rw [unitAt_sliceUnits text (by omega), unitAt_sliceUnits text hlt]
      exact h.2 (i + k)
    · rw [unitAt_sliceUnits text (by omega), unitAt_sliceUnits_of_le text (by omega),
        (by omega : i + k = j - 1)]
      refine Bool.eq_false_iff.2 fun hlead => hj ⟨by omega, hlead, ?_⟩
      rw [← hnext, ← h.2 (j - 1)]
      exact hlead
    · rw [unitAt_sliceUnits_of_le text (by omega), unitAt_sliceUnits_of_le text (by omega)]
      decide

/-- A pair may stand before a text. -/
theorem WellFormed.pair {v : ℕ} (hu : isLead u = true) (hv : isTrail v = true) (h : WellFormed text)
    : WellFormed (u :: v :: text) := by
  simp only [isLead, Bool.and_eq_true, decide_eq_true_eq] at hu
  simp only [isTrail, Bool.and_eq_true, decide_eq_true_eq] at hv
  have hu' : isTrail u = false := by
    simp only [isTrail, Bool.and_eq_false_iff, decide_eq_false_iff_not]
    omega
  have hv' : isLead v = false := by
    simp only [isLead, Bool.and_eq_false_iff, decide_eq_false_iff_not]
    omega
  refine ⟨hu', fun i => ?_⟩
  match i with
  | 0 => simp [isLead, isTrail, hu, hv]
  | 1 => exact hv'.trans h.1.symm
  | i + 2 => exact h.2 i

/-- A string of characters is a well-formed text. -/
theorem wellFormed_utf16 (s : String) : WellFormed (utf16 s) := by
  have hlist : ∀ cs : List Char, WellFormed (cs.flatMap charUtf16) := by
    intro cs
    induction cs with
    | nil => exact ⟨rfl, fun _ => rfl⟩
    | cons c cs ih =>
      have hvalid : c.toNat < 0xd800 ∨ 0xdfff < c.toNat ∧ c.toNat < 0x110000 := c.valid
      rw [List.flatMap_cons, charUtf16]
      split_ifs with hsmall
      · refine (wellFormed_cons ?_).2 ih
        simp only [isLead, isTrail, Bool.and_eq_false_iff, decide_eq_false_iff_not]
        omega
      · refine WellFormed.pair ?_ ?_ ih
        · simp only [isLead, Bool.and_eq_true, decide_eq_true_eq]
          omega
        · simp only [isTrail, Bool.and_eq_true, decide_eq_true_eq]
          omega
  exact hlist s.toList

end Foundations
