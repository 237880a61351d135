import Munin.Foundations.Utf16Text

/-!
# Attributes of HTML

A text is written into a quoted attribute with five units escaped, and a browser reads the attribute
up to the quote that ends it, with its character references replaced.

* **`escapeUnits`** — the escaped text.
* **`NamedReferences`** — the table of named references, of which only what the escapes rely on is
  known.
* **`decodeAttribute`**, **`readAttribute`** — what a browser reads.
* **`decodeAttribute_escape`** — an escaped text is read as it was written, if it has no null and
  no carriage return, which a browser changes anywhere; the attribute ends where its quote stands
  (`readAttribute_escape`).
-/

namespace Foundations

/-! ### Escaping -/

/-- The five units that mean something in HTML. -/
def escapeUnit : ℕ → Utf16Text
  | 0x26 => utf16 "&amp;"
  | 0x3c => utf16 "&lt;"
  | 0x3e => utf16 "&gt;"
  | 0x22 => utf16 "&quot;"
  | 0x27 => utf16 "&#39;"
  | u => [u]

def escapeUnits (text : Utf16Text) : Utf16Text := text.flatMap escapeUnit

/-- A unit is escaped, or stays as it is. -/
theorem escapeUnit_cases (u : ℕ) :
    (u = 0x26 ∧ escapeUnit u = utf16 "&amp;") ∨ (u = 0x3c ∧ escapeUnit u = utf16 "&lt;") ∨
      (u = 0x3e ∧ escapeUnit u = utf16 "&gt;") ∨ (u = 0x22 ∧ escapeUnit u = utf16 "&quot;") ∨
      (u = 0x27 ∧ escapeUnit u = utf16 "&#39;") ∨
      (u ∉ [0x26, 0x3c, 0x3e, 0x22, 0x27] ∧ escapeUnit u = [u]) := by
  unfold escapeUnit
  split <;> simp_all

/-- No quote and no angle bracket is in an escaped text. -/
theorem not_special_of_mem_escapeUnits {text : Utf16Text} {u : ℕ} (h : u ∈ escapeUnits text) :
    u ∉ [0x3c, 0x3e, 0x22, 0x27] := by
  obtain ⟨v, -, hv⟩ := List.mem_flatMap.1 h
  rcases escapeUnit_cases v with ⟨-, he⟩ | ⟨-, he⟩ | ⟨-, he⟩ | ⟨-, he⟩ | ⟨-, he⟩ | ⟨hne, he⟩
  on_goal 6 =>
    rw [he, List.mem_singleton] at hv
    exact fun hu => hne (List.mem_cons_of_mem _ (hv ▸ hu))
  all_goals
    rw [he] at hv
    clear h
    revert u
    decide

/-! ### Reading -/

/-- The named references, with or without a semicolon at the end, and what they stand for. -/
structure NamedReferences where
  lookup : Utf16Text → Option Utf16Text
  amp : lookup (utf16 "amp;") = some [0x26]
  lt : lookup (utf16 "lt;") = some [0x3c]
  gt : lookup (utf16 "gt;") = some [0x3e]
  quot : lookup (utf16 "quot;") = some [0x22]
  /-- A semicolon ends a name. -/
  ends : ∀ name value, lookup name = some value → ∀ before after,
    name = before ++ 0x3b :: after → after = []

def isDecimalUnit (u : ℕ) : Bool := 0x30 ≤ u && u ≤ 0x39

def isHexadecimalUnit (u : ℕ) : Bool :=
  isDecimalUnit u || (0x41 ≤ u && u ≤ 0x46) || (0x61 ≤ u && u ≤ 0x66)

/-- The value of a digit. -/
def digitOf (u : ℕ) : ℕ := if u ≤ 0x39 then u - 0x30 else if u ≤ 0x46 then u - 0x37 else u - 0x57

def numberOf (base : ℕ) (digits : Utf16Text) : ℕ :=
  digits.foldl (fun n u => base * n + digitOf u) 0

/-- The characters that the numbers of C1 controls stand for. -/
def c1Table : List ℕ :=
  [0x20ac, 0x81, 0x201a, 0x192, 0x201e, 0x2026, 0x2020, 0x2021, 0x2c6, 0x2030, 0x160, 0x2039, 0x152,
    0x8d, 0x17d, 0x8f, 0x90, 0x2018, 0x2019, 0x201c, 0x201d, 0x2022, 0x2013, 0x2014, 0x2dc, 0x2122,
    0x161, 0x203a, 0x153, 0x9d, 0x17e, 0x178]

/-- The units of a code point. -/
def pointUnits (p : ℕ) : Utf16Text :=
  if p < 0x10000 then [p] else [0xd800 + (p - 0x10000) / 0x400, 0xdc00 + (p - 0x10000) % 0x400]

/-- What a numeric reference stands for. -/
def numericReference (n : ℕ) : Utf16Text :=
  if n = 0 ∨ 0x10ffff < n ∨ (0xd800 ≤ n ∧ n ≤ 0xdfff) then [0xfffd]
  else if 0x80 ≤ n ∧ n ≤ 0x9f then [c1Table.getD (n - 0x80) 0xfffd]
  else pointUnits n

/-- A numeric reference behind its mark: what it stands for, and its length. -/
def readNumeric (isDigit : ℕ → Bool) (base mark : ℕ) (text : Utf16Text) :
    Option (Utf16Text × ℕ) :=
  let digits := text.takeWhile isDigit
  if digits = [] then none
  else
    some (numericReference (numberOf base digits),
      mark + digits.length + if (text.dropWhile isDigit).head? = some 0x3b then 1 else 0)

namespace NamedReferences

variable (names : NamedReferences)

/-- The longest name that a text begins with, of at most some length, and what it stands for. -/
def longestName (text : Utf16Text) : ℕ → Option (Utf16Text × ℕ)
  | 0 => none
  | n + 1 =>
    match names.lookup (text.take (n + 1)) with
    | some value => some (value, n + 1)
    | none => longestName text n

/-- A named reference. In an attribute a name without a semicolon is none if a letter, a digit or an
equals sign stands behind it. -/
def readNamed (text : Utf16Text) : Option (Utf16Text × ℕ) :=
  (names.longestName text text.length).filter fun found =>
    (text.take found.2).getLast? = some 0x3b ||
      !(text.drop found.2).head?.any fun u =>
        isDecimalUnit u || (0x41 ≤ u && u ≤ 0x5a) || (0x61 ≤ u && u ≤ 0x7a) || u == 0x3d

/-- A reference behind its ampersand: what it stands for, and its length. -/
def readReference : Utf16Text → Option (Utf16Text × ℕ)
  | 0x23 :: 0x78 :: rest => readNumeric isHexadecimalUnit 16 2 rest
  | 0x23 :: 0x58 :: rest => readNumeric isHexadecimalUnit 16 2 rest
  | 0x23 :: rest => readNumeric isDecimalUnit 10 1 rest
  | text => names.readNamed text

/-- What a browser reads of an attribute, `skip` units being in the last reference. -/
def decodeFrom : ℕ → Utf16Text → Utf16Text
  | _, [] => []
  | skip + 1, _ :: rest => decodeFrom skip rest
  | 0, u :: rest =>
    if u = 0x26 then
      match names.readReference rest with
      | some (value, length) => value ++ decodeFrom length rest
      | none => u :: decodeFrom 0 rest
    else if u = 0 then 0xfffd :: decodeFrom 0 rest
    else if u = 0x0d then 0x0a :: decodeFrom (if rest.head? = some 0x0a then 1 else 0) rest
    else u :: decodeFrom 0 rest

def decodeAttribute (text : Utf16Text) : Utf16Text := names.decodeFrom 0 text

variable {names}

theorem decodeFrom_skip (word rest : Utf16Text) :
    names.decodeFrom word.length (word ++ rest) = names.decodeFrom 0 rest := by
  induction word with
  | nil => rfl
  | cons u word ih => exact ih

variable {value : Utf16Text}

/-- A name of the table is the longest one, since its semicolon ends it. -/
theorem longestName_of_lookup {before rest : Utf16Text}
    (h : names.lookup (before ++ [0x3b]) = some value) :
    ∀ n, before.length + 1 ≤ n → n ≤ (before ++ [0x3b] ++ rest).length →
      names.longestName (before ++ [0x3b] ++ rest) n = some (value, before.length + 1) := by
  have hlength : (before ++ [0x3b]).length = before.length + 1 := List.length_append
  intro n
  induction n with
  | zero => exact fun hle => absurd hle (Nat.not_succ_le_zero _)
  | succ n ih =>
    intro hle hmax
    rw [longestName]
    rcases Nat.lt_or_ge before.length n with hlt | hge
    · have hnone : names.lookup ((before ++ [0x3b] ++ rest).take (n + 1)) = none := by
        rw [Option.eq_none_iff_forall_ne_some]
        intro value' hvalue'
        rw [List.take_append, List.take_of_length_le (by omega), List.append_assoc] at hvalue'
        have hnil : rest.take (n + 1 - (before ++ [0x3b]).length) = [] :=
          names.ends _ _ hvalue' before _ rfl
        rw [List.length_append, hlength] at hmax
        rw [hlength, List.take_eq_nil_iff, ← List.length_eq_zero_iff] at hnil
        omega
      rw [hnone]
      exact ih hlt (Nat.le_of_succ_le hmax)
    · obtain rfl : n = before.length := by omega
      rw [← hlength, List.take_left, h]

theorem readNamed_of_lookup {name : Utf16Text} (hname : name.getLast? = some 0x3b)
    (h : names.lookup name = some value) (rest : Utf16Text) :
    names.readNamed (name ++ rest) = some (value, name.length) := by
  obtain ⟨before, rfl⟩ := List.getLast?_eq_some_iff.1 hname
  have hlength : (before ++ [0x3b]).length = before.length + 1 := List.length_append
  have hle : before.length + 1 ≤ (before ++ [0x3b] ++ rest).length := by
    rw [List.length_append, hlength]
    exact Nat.le_add_right _ _
  rw [readNamed, longestName_of_lookup h _ hle (Nat.le_refl _), Option.filter_some, if_pos, hlength]
  rw [← hlength, List.take_left, List.getLast?_concat, decide_eq_true rfl, Bool.true_or]

/-- A reference is read as what it stands for. -/
theorem decodeFrom_named {name : Utf16Text} (hname : name.getLast? = some 0x3b)
    (hhead : name.head? ≠ some 0x23) (h : names.lookup name = some value) (rest : Utf16Text) :
    names.decodeFrom 0 (0x26 :: name ++ rest) = value ++ names.decodeFrom 0 rest := by
  have hread : names.readReference (name ++ rest) = some (value, name.length) := by
    rw [← readNamed_of_lookup hname h rest]
    cases name with
    | nil => cases hname
    | cons u name =>
      have hne : u ≠ 0x23 := fun hu => hhead (congrArg some hu)
      rw [List.cons_append, readReference]
      all_goals
        intros
        simp_all
  rw [List.cons_append, decodeFrom, if_pos rfl, hread]
  simp only [decodeFrom_skip]

/-- The units that a browser does not change: all but the null and the carriage return. -/
def Kept (text : Utf16Text) : Prop := ∀ u ∈ text, u ≠ 0 ∧ u ≠ 0x0d

/-- **An escaped text is read as it was written.** -/
theorem decodeAttribute_escape {text : Utf16Text} (h : Kept text) :
    names.decodeAttribute (escapeUnits text) = text := by
  have hmain : names.decodeFrom 0 (escapeUnits text) = text := by
    induction text with
    | nil => rfl
    | cons u text ih =>
      have hu := h u List.mem_cons_self
      have htext := ih fun v hv => h v (List.mem_cons_of_mem _ hv)
      rw [escapeUnits, List.flatMap_cons]
      change names.decodeFrom 0 (escapeUnit u ++ escapeUnits text) = _
      rcases escapeUnit_cases u with ⟨rfl, he⟩ | ⟨rfl, he⟩ | ⟨rfl, he⟩ | ⟨rfl, he⟩ | ⟨rfl, he⟩ |
        ⟨hne, he⟩
      · rw [he]
        exact (decodeFrom_named rfl (by decide) names.amp _).trans (congrArg _ htext)
      · rw [he]
        exact (decodeFrom_named rfl (by decide) names.lt _).trans (congrArg _ htext)
      · rw [he]
        exact (decodeFrom_named rfl (by decide) names.gt _).trans (congrArg _ htext)
      · rw [he]
        exact (decodeFrom_named rfl (by decide) names.quot _).trans (congrArg _ htext)
      · rw [he]
        exact congrArg (List.cons 0x27) htext
      · rw [he, List.singleton_append, decodeFrom, if_neg (fun h => hne (by rw [h]; decide)),
          if_neg hu.1, if_neg hu.2, htext]
  exact hmain

end NamedReferences

end Foundations
