import Munin.Conversations.QuotedReplies
import Munin.Foundations.RegexWords
import Munin.Foundations.UrlText

/-!
# Patterns in any letter case

What the flag `i` of a pattern of ASCII units leaves open is the case of letters: what the pattern
matches is its text in lower case.
-/

namespace Munin.Conversations

open Foundations Regex

/-- The flag `i` compares ASCII letters by their lower case. -/
theorem asciiLower_of_canonicalize {u v : ℕ} (hv : ¬ (0x41 ≤ v ∧ v ≤ 0x5a))
    (h : asciiCasing.canonicalize u = asciiCasing.canonicalize v) : asciiLower u = v := by
  simp only [Casing.canonicalize, asciiCasing] at h
  unfold asciiLower
  split_ifs at h ⊢ <;> omega

variable {w : Utf16Text}

theorem map_asciiLower {word : Utf16Text} (hword : ∀ v ∈ word, ¬ (0x41 ≤ v ∧ v ≤ 0x5a))
    (h : w.map asciiCasing.canonicalize = word.map asciiCasing.canonicalize) :
    w.map asciiLower = word := by
  induction word generalizing w with
  | nil =>
    rw [List.map_eq_nil_iff.1 h]
    rfl
  | cons v word ih =>
    obtain ⟨u, w, rfl, hu, hw⟩ := List.map_eq_cons_iff.1 h
    rw [List.map_cons, asciiLower_of_canonicalize (hword v List.mem_cons_self) hu,
      ih (fun v hv => hword v (List.mem_cons_of_mem _ hv)) hw]

/-- A literal matches a word that is the literal in lower case. -/
theorem matches_literal_anyCase {word : Utf16Text} {r : Regex} {before after : Utf16Text}
    {c c' : Captured} (hword : ∀ v ∈ word, ¬ (0x41 ≤ v ∧ v ≤ 0x5a))
    (h : Matches asciiCasing.canonicalize (literalThen word r) before w after c c') :
    ∃ w₁ w₂, w = w₁ ++ w₂ ∧ w₁.map asciiLower = word ∧
      Matches asciiCasing.canonicalize r (before ++ w₁) w₂ after c c' := by
  obtain ⟨w₁, w₂, rfl, hlower, hr⟩ := matches_literalThen h
  exact ⟨w₁, w₂, rfl, map_asciiLower hword hlower, hr⟩

/-- So does a unit that may be missing. -/
theorem matches_optional_anyCase {v : ℕ} (hv : ¬ (0x41 ≤ v ∧ v ≤ 0x5a))
    {before after : Utf16Text} {c c' : Captured}
    (h : Matches asciiCasing.canonicalize (iter (units ⟨[(v, v)], false⟩) 0 (some 1) true)
      before w after c c') : (w = [] ∨ w.map asciiLower = [v]) ∧ c' = c := by
  obtain ⟨-, hone, hunits, hc⟩ := matches_iter_units h
  have hle : w.length ≤ 1 := hone 1 rfl
  refine ⟨?_, hc⟩
  rcases w with _ | ⟨u, _ | ⟨u', w⟩⟩
  · exact .inl rfl
  · have hu := (has_single v u).1 (hunits u List.mem_cons_self)
    exact .inr (by rw [List.map_singleton, asciiLower_of_canonicalize hv hu.symm])
  · exact absurd (Nat.le_of_succ_le_succ hle) (Nat.not_succ_le_zero _)

end Munin.Conversations
