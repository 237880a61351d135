import Mathlib.Data.List.TakeWhile

/-!
# Marks in a text

A mark is a fixed opening followed by a word: one or more characters of a class. A text is read from
the left. Where a mark begins, its word is the longest one possible, and the reading goes on behind
it; every other character stands for itself.

* **`Marks.pieces`** — the reading: characters and words.
* **`Marks.words`** — the words of the marks of a text, in their order.
-/

namespace Foundations

/-- What marks look like. -/
structure Marks (α : Type*) where
  /-- What a mark begins with. -/
  opening : List α
  /-- What its word is made of. -/
  inWord : α → Bool
  /-- A mark does begin with something. -/
  opening_ne_nil : opening ≠ []

namespace Marks

variable {α : Type*} [DecidableEq α] (m : Marks α)

/-- The word of the mark that the text begins with, empty if it begins with none. -/
def wordAt (s : List α) : List α :=
  if m.opening.isPrefixOf s then (s.drop m.opening.length).takeWhile m.inWord else []

/-- The reading of a text behind its first `skip` characters: characters and words. -/
def pieces : ℕ → List α → List (α ⊕ List α)
  | _, [] => []
  | skip + 1, _ :: s => pieces skip s
  | 0, c :: s =>
    match m.wordAt (c :: s) with
    | [] => .inl c :: pieces 0 s
    | w => .inr w :: pieces (m.opening.length + w.length - 1) s

/-- The words of the marks of a text. -/
def words (s : List α) : List (List α) := (m.pieces 0 s).filterMap Sum.getRight?

end Marks

end Foundations
