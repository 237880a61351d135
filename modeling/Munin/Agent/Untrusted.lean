import Munin.Conversations.ReplyAddresses
import Munin.Foundations.Regex

/-!
# Fences around untrusted text

Text that is not the operator's goes into a prompt between two tags. What looks like a reserved tag
in it is made harmless before, so that the text cannot end its own fence.

* **`neutralizeFraming`**, **`fenceUntrusted`** — the escaping and the fence.
* **`tagSpans`** — where a text has reserved tags, as the pattern of the code finds them.
* **`fence_scanned_iff`** — a fenced text has the two tags of its fence and no others exactly if
  what was fenced has no reserved tag that is opened and not closed: such a tag is not a match in
  the text, and goes on to the closing tag of the fence.
-/

namespace Munin.Agent

open Foundations Conversations

/-- `RESERVED_FRAMING_TAGS`. -/
inductive FramingTag where
  | data
  | toolResult
  | companyContext
  | sourcePage
  | quotedHistory
  deriving DecidableEq

def FramingTag.name : FramingTag → Utf16Text
  | data => utf16 "data"
  | toolResult => utf16 "tool_result"
  | companyContext => utf16 "company_context"
  | sourcePage => utf16 "source_page"
  | quotedHistory => utf16 "quoted_history"

def reservedFramingTags : List FramingTag :=
  [.data, .toolResult, .companyContext, .sourcePage, .quotedHistory]

/-! ### The pattern

`FRAMING_TAG_RE` is `/<\s*\/?\s*(?:data|…)\b[^>]*>/gi`. No unit that one of its repetitions matches
may stand behind the repetition, so none has to be given back. -/

/-- What is behind a word that a text begins with, in any case of its letters. -/
def behindWord : Utf16Text → Utf16Text → Option Utf16Text
  | [], text => some text
  | _ :: _, [] => none
  | c :: word, u :: text => if asciiLower u = c then behindWord word text else none

/-- What is behind `(?:\/\s*)?`. -/
def dropSlash : Utf16Text → Utf16Text
  | [] => []
  | u :: rest => if u = 0x2f then rest.dropWhile isBlankUnit else u :: rest

/-- What is behind `\s*\/?\s*`. -/
def skipSlash (text : Utf16Text) : Utf16Text := dropSlash (text.dropWhile isBlankUnit)

/-- `\b` behind a letter. -/
def endsWord (rest : Utf16Text) : Bool := !rest.head?.any Regex.isWordUnit

/-- What is behind a name of a reserved tag. -/
def behindName (text : Utf16Text) : Option Utf16Text :=
  reservedFramingTags.findSome? fun tag => (behindWord tag.name text).filter endsWord

/-- What is behind the pattern up to its `\b`. -/
def behindHead : Utf16Text → Option Utf16Text
  | [] => none
  | u :: rest => if u = 0x3c then behindName (skipSlash rest) else none

/-- What is behind `[^>]*>`. -/
def behindClose : Utf16Text → Option Utf16Text
  | [] => none
  | u :: rest => if u = 0x3e then some rest else behindClose rest

/-- The length of the match that a text begins with. -/
def tagLength (text : Utf16Text) : Option ℕ :=
  ((behindHead text).bind behindClose).map fun rest => text.length - rest.length

/-! ### Escaping -/

/-- A unit of a match: `replace(/</g, '&lt;')`. -/
def escapeUnit (u : ℕ) : Utf16Text := if u = 0x3c then utf16 "&lt;" else [u]

/-- The text with its matches escaped, of a first match `inside` units being left. -/
def neutralizeFrom : ℕ → Utf16Text → Utf16Text
  | _, [] => []
  | inside + 1, u :: rest => escapeUnit u ++ neutralizeFrom inside rest
  | 0, u :: rest =>
    match tagLength (u :: rest) with
    | none => u :: neutralizeFrom 0 rest
    | some n => escapeUnit u ++ neutralizeFrom (n - 1) rest

def neutralizeFraming (text : Utf16Text) : Utf16Text := neutralizeFrom 0 text

/-- The matches in a text that begins at `pos`, of a first match `inside` units being left: where
they begin and end. -/
def tagSpansFrom : ℕ → ℕ → Utf16Text → List (ℕ × ℕ)
  | _, _, [] => []
  | pos, inside + 1, _ :: rest => tagSpansFrom (pos + 1) inside rest
  | pos, 0, u :: rest =>
    match tagLength (u :: rest) with
    | none => tagSpansFrom (pos + 1) 0 rest
    | some n => (pos, pos + n) :: tagSpansFrom (pos + 1) (n - 1) rest

/-- The matches in a text. -/
def tagSpans (text : Utf16Text) : List (ℕ × ℕ) := tagSpansFrom 0 0 text

/-- A unit that `/[^A-Za-z0-9_.:-]/g` leaves. -/
def isToolNameUnit (u : ℕ) : Bool := isKeyUnit u || u == 0x2e || u == 0x3a

def sanitizeToolName (name : Utf16Text) : Utf16Text :=
  let cleaned := (name.filter isToolNameUnit).take 64
  if cleaned = [] then utf16 "unknown" else cleaned

def sanitizeAttributeValue (value : Utf16Text) : Utf16Text :=
  (value.filter fun u => u != 0x3c && u != 0x3e && u != 0x22).take 300

/-- An attribute, with a blank before it. -/
def renderAttribute (entry : Utf16Text × Utf16Text) : Utf16Text :=
  0x20 :: entry.1 ++ utf16 "=\"" ++ sanitizeAttributeValue entry.2 ++ [0x22]

/-- The first tag of a fence. -/
def openingTag (tag : FramingTag) (attributes : List (Utf16Text × Utf16Text)) : Utf16Text :=
  0x3c :: tag.name ++ attributes.flatMap renderAttribute ++ [0x3e]

/-- The last tag of a fence. -/
def closingTag (tag : FramingTag) : Utf16Text := 0x3c :: 0x2f :: tag.name ++ [0x3e]

/-- The fence around a body; the attributes come in the order of `Object.entries`. -/
def fenceUntrusted (tag : FramingTag) (body : Utf16Text)
    (attributes : List (Utf16Text × Utf16Text)) : Utf16Text :=
  openingTag tag attributes ++ 0x0a :: neutralizeFraming body ++ 0x0a :: closingTag tag

/-! ### Tags and their heads -/

/-- A text begins with a tag up to its name. -/
def HasHead (text : Utf16Text) : Prop := (behindHead text).isSome = true

instance (text : Utf16Text) : Decidable (HasHead text) := inferInstanceAs (Decidable (_ = true))

/-- Somewhere in a text a reserved tag is opened that nothing closes. -/
def HasOpenTag (text : Utf16Text) : Prop := ∃ s ∈ text.tails, HasHead s ∧ 0x3e ∉ s

instance (text : Utf16Text) : Decidable (HasOpenTag text) :=
  inferInstanceAs (Decidable (∃ s ∈ text.tails, _))

/-- Nowhere in a text is a reserved tag. -/
def NoTag (text : Utf16Text) : Prop := ∀ s ∈ text.tails, tagLength s = none

theorem not_hasOpenTag_nil : ¬ HasOpenTag [] := by
  rintro ⟨s, hs, hhead, -⟩
  rw [List.tails, List.mem_singleton] at hs
  rw [hs] at hhead
  cases hhead

theorem hasOpenTag_cons (u : ℕ) (text : Utf16Text) :
    HasOpenTag (u :: text) ↔ HasHead (u :: text) ∧ 0x3e ∉ u :: text ∨ HasOpenTag text := by
  simp only [HasOpenTag, List.tails, List.mem_cons, exists_eq_or_imp]

theorem noTag_cons (u : ℕ) (text : Utf16Text) :
    NoTag (u :: text) ↔ tagLength (u :: text) = none ∧ NoTag text := by
  simp only [NoTag, List.tails, List.mem_cons, forall_eq_or_imp]

variable {u : ℕ} {text word rest text' : Utf16Text}

theorem lt_of_hasHead (h : HasHead (u :: text)) : u = 0x3c := by
  by_contra hu
  rw [HasHead, behindHead, if_neg hu] at h
  cases h

theorem behindClose_isSome_iff (text : Utf16Text) :
    (behindClose text).isSome = true ↔ 0x3e ∈ text := by
  induction text with
  | nil => simp [behindClose]
  | cons u text ih =>
    rw [behindClose]
    split_ifs with hu
    · simp [hu]
    · rw [ih, List.mem_cons, or_iff_right (Ne.symm hu)]

/-- What is behind the closing bracket of a match. -/
theorem behindClose_append (h : 0x3e ∉ text) (rest : Utf16Text) :
    behindClose (text ++ 0x3e :: rest) = some rest := by
  induction text with
  | nil => rfl
  | cons u text ih =>
    rw [List.mem_cons, not_or] at h
    rw [List.cons_append, behindClose, if_neg (Ne.symm h.1), ih h.2]

/-! ### What a head takes -/

theorem behindWord_spec (h : behindWord word text = some rest) :
    ∃ head, text = head ++ rest ∧ head.map asciiLower = word := by
  induction word generalizing text with
  | nil => exact ⟨[], Option.some.inj h, rfl⟩
  | cons c word ih =>
    cases text with
    | nil => cases h
    | cons u text =>
      rw [behindWord] at h
      split_ifs at h with hu
      obtain ⟨head, htext, hword⟩ := ih h
      exact ⟨u :: head, by rw [htext, List.cons_append], by rw [List.map_cons, hu, hword]⟩

theorem dropBlanks_spec (text : Utf16Text) :
    ∃ gap, text = gap ++ text.dropWhile isBlankUnit ∧ 0x3e ∉ gap := by
  refine ⟨text.takeWhile isBlankUnit, List.takeWhile_append_dropWhile.symm, fun hmem => ?_⟩
  exact absurd (List.mem_takeWhile_imp hmem) (by decide)

theorem dropSlash_spec (text : Utf16Text) : ∃ gap, text = gap ++ dropSlash text ∧ 0x3e ∉ gap := by
  cases text with
  | nil => exact ⟨[], rfl, List.not_mem_nil⟩
  | cons u text =>
    rw [dropSlash]
    split_ifs with hu
    · obtain ⟨gap, htext, hgap⟩ := dropBlanks_spec text
      exact ⟨u :: gap, by rw [List.cons_append, ← htext], by simp [hu, hgap]⟩
    · exact ⟨[], rfl, List.not_mem_nil⟩

theorem skipSlash_spec (text : Utf16Text) : ∃ gap, text = gap ++ skipSlash text ∧ 0x3e ∉ gap := by
  obtain ⟨gap, htext, hgap⟩ := dropBlanks_spec text
  obtain ⟨gap', hslash, hgap'⟩ := dropSlash_spec (text.dropWhile isBlankUnit)
  refine ⟨gap ++ gap', ?_, by simp [hgap, hgap']⟩
  rw [skipSlash, List.append_assoc, ← hslash, ← htext]

theorem not_mem_name (tag : FramingTag) : 0x3e ∉ tag.name := by
  cases tag <;> decide

theorem behindName_spec (h : behindName text = some rest) :
    ∃ head, text = head ++ rest ∧ 0x3e ∉ head := by
  obtain ⟨tag, -, htag⟩ := List.exists_of_findSome?_eq_some h
  rw [Option.filter_eq_some_iff] at htag
  obtain ⟨head, htext, hname⟩ := behindWord_spec htag.1
  refine ⟨head, htext, fun hmem => not_mem_name tag ?_⟩
  rw [← hname]
  exact List.mem_map.2 ⟨0x3e, hmem, rfl⟩

/-- A head has no closing bracket. -/
theorem behindHead_spec (h : behindHead text = some rest) :
    ∃ head, text = head ++ rest ∧ 0x3e ∉ head := by
  cases text with
  | nil => cases h
  | cons u text =>
    rw [behindHead] at h
    split_ifs at h with hu
    obtain ⟨gap, htext, hgap⟩ := skipSlash_spec text
    obtain ⟨head, hname, hhead⟩ := behindName_spec h
    refine ⟨u :: gap ++ head, ?_, ?_⟩
    · rw [List.cons_append, List.cons_append, List.append_assoc, ← hname, ← htext]
    · simp [hu, hgap, hhead]

/-- **A match goes from a head to the first closing bracket**. -/
theorem tagLength_eq {before after : Utf16Text} (h : HasHead (before ++ 0x3e :: after))
    (hbefore : 0x3e ∉ before) : tagLength (before ++ 0x3e :: after) = some (before.length + 1) := by
  obtain ⟨rest, hrest⟩ := Option.isSome_iff_exists.1 h
  obtain ⟨head, htext, hhead⟩ := behindHead_spec hrest
  have hsplit : ∃ gap, before = head ++ gap ∧ rest = gap ++ 0x3e :: after := by
    rcases List.append_eq_append_iff.1 htext with ⟨gap, hgap, hafter⟩ | ⟨gap, hgap, hafter⟩
    · cases gap with
      | nil =>
        rw [List.append_nil] at hgap
        exact ⟨[], by rw [hgap, List.append_nil], hafter.symm⟩
      | cons u gap =>
        rw [List.cons_append, List.cons.injEq] at hafter
        exact absurd (by rw [hgap, ← hafter.1]; simp) hhead
    · exact ⟨gap, hgap, hafter⟩
  obtain ⟨gap, hgap, hafter⟩ := hsplit
  have hnot : 0x3e ∉ gap := fun hmem => hbefore (hgap ▸ List.mem_append_right _ hmem)
  rw [tagLength, hrest, Option.bind_some, hafter, behindClose_append hnot, Option.map_some]
  simp only [List.length_append, List.length_cons, Option.some.injEq]
  omega

theorem tagLength_eq_none_iff (text : Utf16Text) :
    tagLength text = none ↔ ¬ (HasHead text ∧ 0x3e ∈ text) := by
  refine ⟨fun hnone ⟨hhead, hmem⟩ => ?_, fun hnot => Option.eq_none_iff_forall_ne_some.2 ?_⟩
  · obtain ⟨before, after, rfl, hbefore⟩ := List.eq_append_cons_of_mem hmem
    rw [tagLength_eq hhead hbefore] at hnone
    cases hnone
  · intro n hn
    obtain ⟨rest, hrest, -⟩ := Option.map_eq_some_iff.1 hn
    obtain ⟨behind, hbehind, hclose⟩ := Option.bind_eq_some_iff.1 hrest
    obtain ⟨head, rfl, -⟩ := behindHead_spec hbehind
    refine hnot ⟨Option.isSome_iff_exists.2 ⟨behind, hbehind⟩, List.mem_append_right _ ?_⟩
    exact (behindClose_isSome_iff behind).1 (Option.isSome_iff_exists.2 ⟨rest, hclose⟩)

/-! ### What stands behind a head -/

/-- A text in which no head goes on: but for blanks it is empty, begins a tag or stands in the
place of one. -/
def Stops (text : Utf16Text) : Prop :=
  ∀ u ∈ (text.dropWhile isBlankUnit).head?, u = 0x3c ∨ u = 0x26

/-- Two texts that are the same up to where no head goes on. -/
inductive Alike : Utf16Text → Utf16Text → Prop
  | stop {text text' : Utf16Text} (h : Stops text) (h' : Stops text') : Alike text text'
  | keep {text text' : Utf16Text} (u : ℕ) (h : Alike text text') : Alike (u :: text) (u :: text')

theorem Alike.symm (h : Alike text text') : Alike text' text := by
  induction h with
  | stop h h' => exact .stop h' h
  | keep u _ ih => exact .keep u ih

theorem Alike.refl (text : Utf16Text) : Alike text text := by
  induction text with
  | nil => exact .stop (by simp [Stops]) (by simp [Stops])
  | cons u text ih => exact .keep u ih

theorem Stops.head (h : Stops (u :: text)) : isBlankUnit u = true ∨ u = 0x3c ∨ u = 0x26 := by
  by_cases hblank : isBlankUnit u = true
  · exact .inl hblank
  · rw [Stops, List.dropWhile_cons_of_neg hblank] at h
    exact .inr (h u rfl)

theorem Stops.dropWhile (h : Stops text) : Stops (text.dropWhile isBlankUnit) := by
  rw [Stops, List.dropWhile_idempotent]
  exact h

/-- What stops does not begin with a slash. -/
theorem Stops.dropSlash (h : Stops text) : Stops (dropSlash text) := by
  cases text with
  | nil => exact h
  | cons u text =>
    have hu : u ≠ 0x2f := by
      rintro rfl
      exact absurd h.head (by decide)
    rw [Agent.dropSlash, if_neg hu]
    exact h

theorem Alike.dropWhile (h : Alike text text') :
    Alike (text.dropWhile isBlankUnit) (text'.dropWhile isBlankUnit) := by
  induction h with
  | stop h h' => exact .stop h.dropWhile h'.dropWhile
  | keep u h ih =>
    by_cases hu : isBlankUnit u = true
    · rw [List.dropWhile_cons_of_pos hu, List.dropWhile_cons_of_pos hu]
      exact ih
    · rw [List.dropWhile_cons_of_neg hu, List.dropWhile_cons_of_neg hu]
      exact .keep u h

theorem Alike.dropSlash (h : Alike text text') : Alike (dropSlash text) (dropSlash text') := by
  cases h with
  | stop h h' => exact .stop h.dropSlash h'.dropSlash
  | keep u h =>
    rw [Agent.dropSlash, Agent.dropSlash]
    split_ifs
    · exact h.dropWhile
    · exact .keep u h

/-- What stops does not begin with a word, and a word may end before it. -/
theorem Stops.not_word (h : Stops (u :: text)) : Regex.isWordUnit u = false := by
  refine Bool.eq_false_iff.2 fun hword => ?_
  rw [Regex.isWordUnit_iff] at hword
  rcases h.head with hblank | hu
  · simp only [isBlankUnit, Bool.or_eq_true, Bool.and_eq_true, decide_eq_true_eq, beq_iff_eq]
      at hblank
    omega
  · omega

theorem Stops.endsWord (h : Stops text) : endsWord text = true := by
  cases text with
  | nil => rfl
  | cons u text => simp [Agent.endsWord, h.not_word]

theorem Alike.endsWord (h : Alike text text') : endsWord text = endsWord text' := by
  cases h with
  | stop h h' => rw [h.endsWord, h'.endsWord]
  | keep u h => rfl

/-- The letters of a name. -/
theorem isWordUnit_of_asciiLower (h : Regex.isWordUnit (asciiLower u) = true) :
    Regex.isWordUnit u = true := by
  rw [Regex.isWordUnit_iff] at h ⊢
  unfold asciiLower at h
  split_ifs at h <;> omega

theorem Alike.behindWord (hword : ∀ c ∈ word, Regex.isWordUnit c = true) (h : Alike text text')
    (hrest : behindWord word text = some rest) :
    ∃ rest', behindWord word text' = some rest' ∧ Alike rest rest' := by
  induction word generalizing text text' with
  | nil => exact ⟨text', rfl, Option.some.inj hrest ▸ h⟩
  | cons c word ih =>
    cases h with
    | stop h h' =>
      cases text with
      | nil => cases hrest
      | cons u text =>
        rw [Agent.behindWord] at hrest
        split_ifs at hrest with hu
        have hc := isWordUnit_of_asciiLower (hu ▸ hword c List.mem_cons_self)
        rw [h.not_word] at hc
        cases hc
    | keep u h =>
      rw [Agent.behindWord] at hrest ⊢
      split_ifs at hrest with hu
      rw [if_pos hu]
      exact ih (fun c hc => hword c (List.mem_cons_of_mem _ hc)) h hrest

theorem isWordUnit_of_mem_name {tag : FramingTag} : ∀ c ∈ tag.name, Regex.isWordUnit c = true := by
  cases tag <;> decide

theorem Alike.behindName (h : Alike text text')
    (hname : (behindName text).isSome = true) : (behindName text').isSome = true := by
  rw [Agent.behindName, List.findSome?_isSome_iff] at hname ⊢
  obtain ⟨tag, hmem, htag⟩ := hname
  obtain ⟨rest, hrest⟩ := Option.isSome_iff_exists.1 htag
  rw [Option.filter_eq_some_iff] at hrest
  obtain ⟨rest', hrest', halike⟩ := h.behindWord isWordUnit_of_mem_name hrest.1
  refine ⟨tag, hmem, Option.isSome_iff_exists.2 ⟨rest', ?_⟩⟩
  rw [Option.filter_eq_some_iff]
  exact ⟨hrest', halike.endsWord ▸ hrest.2⟩

/-- **A head does not depend on what stands behind where it stops**. -/
theorem hasHead_congr (h : Alike text text') (u : ℕ) :
    HasHead (u :: text) ↔ HasHead (u :: text') := by
  by_cases hu : u = 0x3c
  · rw [HasHead, HasHead, behindHead, behindHead, if_pos hu, if_pos hu]
    exact ⟨h.dropWhile.dropSlash.behindName, h.symm.dropWhile.dropSlash.behindName⟩
  · exact ⟨fun hhead => absurd (lt_of_hasHead hhead) hu,
      fun hhead => absurd (lt_of_hasHead hhead) hu⟩

/-! ### The escaped text -/

theorem mem_escapeUnit (u : ℕ) : 0x3e ∈ escapeUnit u ↔ 0x3e = u := by
  rw [escapeUnit]
  split_ifs with hu
  · rw [hu]
    decide
  · exact List.mem_singleton

/-- Escaping leaves the closing brackets. -/
theorem mem_neutralizeFrom (inside : ℕ) (text : Utf16Text) :
    0x3e ∈ neutralizeFrom inside text ↔ 0x3e ∈ text := by
  induction text generalizing inside with
  | nil => rw [neutralizeFrom]
  | cons u text ih =>
    cases inside with
    | zero =>
      rw [neutralizeFrom]
      split
      · rw [List.mem_cons, List.mem_cons, ih]
      · rw [List.mem_append, List.mem_cons, ih, mem_escapeUnit]
    | succ inside => rw [neutralizeFrom, List.mem_append, List.mem_cons, ih, mem_escapeUnit]

/-- The escaped text is the text up to where a head stops. -/
theorem alike_neutralizeFrom (text : Utf16Text) : Alike text (neutralizeFrom 0 text) := by
  induction text with
  | nil => exact .refl []
  | cons u text ih =>
    rw [neutralizeFrom]
    split
    · exact .keep u ih
    · rename_i n hn
      have hhead : HasHead (u :: text) := by
        by_contra hnot
        rw [(tagLength_eq_none_iff _).2 fun h => hnot h.1] at hn
        cases hn
      rw [lt_of_hasHead hhead]
      exact .stop (fun v hv => .inl (Option.some.inj hv).symm)
        fun v hv => .inr (Option.some.inj hv).symm

theorem hasHead_neutralizeFrom (u : ℕ) (text : Utf16Text) :
    HasHead (u :: neutralizeFrom 0 text) ↔ HasHead (u :: text) :=
  (hasHead_congr (alike_neutralizeFrom text) u).symm

theorem tagLength_of_ne (hu : u ≠ 0x3c) (text : Utf16Text) : tagLength (u :: text) = none :=
  (tagLength_eq_none_iff _).2 fun h => hu (lt_of_hasHead h.1)

theorem noTag_cons_of_ne (hu : u ≠ 0x3c) (h : NoTag text) : NoTag (u :: text) :=
  (noTag_cons u text).2 ⟨tagLength_of_ne hu text, h⟩

theorem noTag_escapeUnit_append (u : ℕ) (h : NoTag text) : NoTag (escapeUnit u ++ text) := by
  rw [escapeUnit]
  split_ifs with hu
  · exact noTag_cons_of_ne (by decide) <| noTag_cons_of_ne (by decide) <|
      noTag_cons_of_ne (by decide) <| noTag_cons_of_ne (by decide) h
  · exact noTag_cons_of_ne hu h

/-- **An escaped text has no reserved tag**. -/
theorem noTag_neutralizeFrom (inside : ℕ) (text : Utf16Text) :
    NoTag (neutralizeFrom inside text) := by
  induction text generalizing inside with
  | nil =>
    intro s hs
    rw [neutralizeFrom, List.tails, List.mem_singleton] at hs
    rw [hs]
    rfl
  | cons u text ih =>
    cases inside with
    | zero =>
      rw [neutralizeFrom]
      split
      · rename_i hnone
        rw [tagLength_eq_none_iff] at hnone
        rw [noTag_cons, tagLength_eq_none_iff, hasHead_neutralizeFrom, List.mem_cons,
          mem_neutralizeFrom, ← List.mem_cons]
        exact ⟨hnone, ih 0⟩
      · exact noTag_escapeUnit_append u (ih _)
    | succ inside => exact noTag_escapeUnit_append u (ih inside)

theorem neutralizeFraming_of_noTag (h : NoTag text) : neutralizeFraming text = text := by
  induction text with
  | nil => rfl
  | cons u text ih =>
    rw [noTag_cons] at h
    rw [neutralizeFraming, neutralizeFrom]
    simp only [h.1]
    rw [← neutralizeFraming, ih h.2]

/-- **Escaping twice is escaping once**. -/
theorem neutralizeFraming_idempotent (text : Utf16Text) :
    neutralizeFraming (neutralizeFraming text) = neutralizeFraming text :=
  neutralizeFraming_of_noTag (noTag_neutralizeFrom 0 text)

theorem hasOpenTag_cons_of_ne (hu : u ≠ 0x3c) (text : Utf16Text) :
    HasOpenTag (u :: text) ↔ HasOpenTag text := by
  rw [hasOpenTag_cons]
  exact or_iff_right fun h => hu (lt_of_hasHead h.1)

theorem hasOpenTag_escapeUnit_append (u : ℕ) (text : Utf16Text) :
    HasOpenTag (escapeUnit u ++ text) ↔ HasOpenTag text := by
  rw [escapeUnit]
  split_ifs with hu
  · exact (hasOpenTag_cons_of_ne (by decide) _).trans <|
      (hasOpenTag_cons_of_ne (by decide) _).trans <|
      (hasOpenTag_cons_of_ne (by decide) _).trans (hasOpenTag_cons_of_ne (by decide) _)
  · exact hasOpenTag_cons_of_ne hu text

/-- The match that a tag's length is of ends with a closing bracket. -/
theorem getElem?_of_tagLength {n : ℕ} (h : tagLength text = some n) :
    0 < n ∧ text[n - 1]? = some 0x3e := by
  have hboth : HasHead text ∧ 0x3e ∈ text := by
    by_contra hnot
    rw [(tagLength_eq_none_iff text).2 hnot] at h
    cases h
  obtain ⟨before, after, rfl, hbefore⟩ := List.eq_append_cons_of_mem hboth.2
  rw [tagLength_eq hboth.1 hbefore, Option.some.injEq] at h
  rw [← h, Nat.add_sub_cancel]
  exact ⟨Nat.succ_pos _, by rw [List.getElem?_append_right le_rfl, Nat.sub_self]; rfl⟩

/-- **What is open stays open, and nothing else does**: an open tag is in no match. -/
theorem hasOpenTag_neutralizeFrom {inside : ℕ}
    (hinside : 0 < inside → text[inside - 1]? = some 0x3e) :
    HasOpenTag (neutralizeFrom inside text) ↔ HasOpenTag text := by
  induction text generalizing inside with
  | nil => rw [neutralizeFrom]
  | cons u text ih =>
    -- within a match no tag is open, since the match ends with a closing bracket
    have hmatch : ∀ n, 0 < n → (u :: text)[n - 1]? = some 0x3e →
        (HasOpenTag (escapeUnit u ++ neutralizeFrom (n - 1) text) ↔ HasOpenTag (u :: text)) := by
      intro n hn hclose
      have hmem : 0x3e ∈ u :: text := List.mem_of_getElem? hclose
      rw [hasOpenTag_escapeUnit_append, hasOpenTag_cons, or_iff_right fun h => h.2 hmem]
      refine ih fun hpos => ?_
      rw [List.getElem?_cons, if_neg (by omega)] at hclose
      exact hclose
    cases inside with
    | zero =>
      rw [neutralizeFrom]
      split
      · rw [hasOpenTag_cons, hasOpenTag_cons, hasHead_neutralizeFrom, List.mem_cons,
          mem_neutralizeFrom, ← List.mem_cons, ih fun h => absurd h (lt_irrefl 0)]
      · rename_i n hn
        exact hmatch n (getElem?_of_tagLength hn).1 (getElem?_of_tagLength hn).2
    | succ inside =>
      rw [neutralizeFrom]
      exact hmatch (inside + 1) (Nat.succ_pos _) (hinside (Nat.succ_pos _))

/-! ### Scanning a fence -/

theorem tagSpansFrom_inside (pos inside : ℕ) (text : Utf16Text) :
    tagSpansFrom pos inside text = tagSpansFrom (pos + inside) 0 (text.drop inside) := by
  induction text generalizing pos inside with
  | nil => rw [List.drop_nil, tagSpansFrom, tagSpansFrom]
  | cons u text ih =>
    cases inside with
    | zero => rfl
    | succ inside => rw [tagSpansFrom, ih, List.drop_succ_cons, Nat.add_right_comm, Nat.add_assoc]

/-- A match at the beginning. -/
theorem tagSpansFrom_of_tag {n : ℕ} (h : tagLength text = some n) (pos : ℕ) :
    tagSpansFrom pos 0 text = (pos, pos + n) :: tagSpansFrom (pos + n) 0 (text.drop n) := by
  have hpos := (getElem?_of_tagLength h).1
  cases text with
  | nil => cases h
  | cons u text =>
    obtain ⟨n, rfl⟩ : ∃ k, n = k + 1 := ⟨n - 1, by omega⟩
    rw [tagSpansFrom]
    simp only [h]
    rw [tagSpansFrom_inside, Nat.add_sub_cancel, List.drop_succ_cons, Nat.add_assoc,
      Nat.add_comm 1 n]

theorem tagSpansFrom_of_none (h : tagLength (u :: text) = none)
    (pos : ℕ) : tagSpansFrom pos 0 (u :: text) = tagSpansFrom (pos + 1) 0 text := by
  rw [tagSpansFrom]
  simp only [h]

theorem alike_append {stop : Utf16Text} (h : Stops stop) (text : Utf16Text) :
    Alike (text ++ stop) text := by
  induction text with
  | nil => exact .stop h fun u hu => by cases hu
  | cons u text ih => exact .keep u ih

section Behind

variable {text stop : Utf16Text} (hstop : Stops stop) (hno : NoTag text)
include hstop hno

/-- A scan passes over a text without tags if none is open. -/
theorem tagSpansFrom_append (hopen : ¬ HasOpenTag text) (pos : ℕ) :
    tagSpansFrom pos 0 (text ++ stop) = tagSpansFrom (pos + text.length) 0 stop := by
  induction text generalizing pos with
  | nil => rfl
  | cons u text ih =>
    rw [noTag_cons, tagLength_eq_none_iff] at hno
    rw [hasOpenTag_cons, not_or] at hopen
    have hhead : ¬ HasHead (u :: (text ++ stop)) := by
      rw [hasHead_congr (alike_append hstop text) u]
      exact fun hhead => hno.1 ⟨hhead, not_not.1 fun hmem => hopen.1 ⟨hhead, hmem⟩⟩
    rw [List.cons_append, tagSpansFrom_of_none ((tagLength_eq_none_iff _).2 fun h => hhead h.1),
      ih hno.2 hopen.2, List.length_cons, Nat.add_assoc, Nat.add_comm 1]

/-- A tag that is open goes on behind the text. -/
theorem tagSpansFrom_append_of_open (hclose : 0x3e ∈ stop) (hopen : HasOpenTag text) (pos : ℕ) :
    ∃ start stop' rest, tagSpansFrom pos 0 (text ++ stop) = (start, stop') :: rest ∧
      start < pos + text.length := by
  induction text generalizing pos with
  | nil => exact absurd hopen not_hasOpenTag_nil
  | cons u text ih =>
    rw [noTag_cons, tagLength_eq_none_iff] at hno
    by_cases hhead : HasHead (u :: (text ++ stop))
    · obtain ⟨n, hn⟩ := Option.ne_none_iff_exists'.1 fun hnone =>
        (tagLength_eq_none_iff (u :: text ++ stop)).1 hnone
          ⟨hhead, List.mem_append_right _ hclose⟩
      exact ⟨pos, pos + n, _, tagSpansFrom_of_tag hn pos, by simp⟩
    · have hrest : HasOpenTag text := by
        rw [hasOpenTag_cons] at hopen
        refine hopen.resolve_left fun h => hhead ?_
        exact (hasHead_congr (alike_append hstop text) u).2 h.1
      obtain ⟨start, stop', rest, hspans, hlt⟩ := ih hno.2 hrest (pos + 1)
      refine ⟨start, stop', rest, ?_, by rw [List.length_cons]; omega⟩
      rw [List.cons_append, tagSpansFrom_of_none ((tagLength_eq_none_iff _).2 fun h => hhead h.1),
        hspans]

end Behind

/-! ### The two tags of a fence -/

theorem behindWord_append (h : ∀ c ∈ word, asciiLower c = c)
    (rest : Utf16Text) : behindWord word (word ++ rest) = some rest := by
  induction word with
  | nil => rfl
  | cons c word ih =>
    rw [List.cons_append, behindWord, if_pos (h c List.mem_cons_self),
      ih fun c hc => h c (List.mem_cons_of_mem _ hc)]

theorem behindName_name (tag : FramingTag) (h : endsWord rest = true) :
    (behindName (tag.name ++ rest)).isSome = true := by
  have hlower : ∀ c ∈ tag.name, asciiLower c = c := by cases tag <;> decide
  rw [behindName, List.findSome?_isSome_iff]
  refine ⟨tag, by cases tag <;> decide, ?_⟩
  rw [behindWord_append hlower, Option.filter_some, if_pos h]
  rfl

theorem hasHead_opening (tag : FramingTag) (h : endsWord rest = true) :
    HasHead (0x3c :: tag.name ++ rest) := by
  have hskip : skipSlash (tag.name ++ rest) = tag.name ++ rest := by cases tag <;> rfl
  rw [HasHead, List.cons_append, behindHead, if_pos rfl, hskip]
  exact behindName_name tag h

theorem hasHead_closing (tag : FramingTag) (h : endsWord rest = true) :
    HasHead (0x3c :: 0x2f :: tag.name ++ rest) := by
  have hskip : skipSlash (0x2f :: (tag.name ++ rest)) = tag.name ++ rest := by cases tag <;> rfl
  rw [HasHead, List.cons_append, List.cons_append, behindHead, if_pos rfl, hskip]
  exact behindName_name tag h

theorem not_mem_sanitizeAttributeValue (value : Utf16Text) :
    0x3e ∉ sanitizeAttributeValue value := by
  intro hmem
  have hfilter := (List.mem_filter.1 (List.mem_of_mem_take hmem)).2
  exact absurd hfilter (by decide)

section Fence

variable (tag : FramingTag) {attributes : List (Utf16Text × Utf16Text)}
  (hkeys : ∀ entry ∈ attributes, 0x3e ∉ entry.1)

include hkeys in
theorem not_mem_renderAttributes : 0x3e ∉ attributes.flatMap renderAttribute := by
  intro hmem
  obtain ⟨entry, hentry, hmem⟩ := List.mem_flatMap.1 hmem
  have hconst : 0x3e ∉ utf16 "=\"" := by decide
  simp [renderAttribute, hkeys entry hentry, not_mem_sanitizeAttributeValue, hconst] at hmem

theorem endsWord_renderAttributes (rest : Utf16Text) :
    endsWord (attributes.flatMap renderAttribute ++ 0x3e :: rest) = true := by
  cases attributes with
  | nil => rfl
  | cons entry attributes => rfl

include hkeys in
theorem tagLength_openingTag (rest : Utf16Text) :
    tagLength (openingTag tag attributes ++ rest) = some (openingTag tag attributes).length := by
  have hbefore : 0x3e ∉ 0x3c :: tag.name ++ attributes.flatMap renderAttribute := by
    simp [not_mem_name, not_mem_renderAttributes hkeys]
  have hhead :
      HasHead ((0x3c :: tag.name ++ attributes.flatMap renderAttribute) ++ 0x3e :: rest) := by
    rw [List.append_assoc]
    exact hasHead_opening tag (endsWord_renderAttributes rest)
  rw [openingTag, List.append_assoc _ [0x3e], List.singleton_append, tagLength_eq hhead hbefore]
  simp only [List.length_append, List.length_singleton]

theorem tagLength_closingTag : tagLength (closingTag tag) = some (closingTag tag).length := by
  have hbefore : 0x3e ∉ 0x3c :: 0x2f :: tag.name := by simp [not_mem_name]
  rw [closingTag, tagLength_eq (hasHead_closing tag rfl) hbefore, List.length_append,
    List.length_singleton]

/-- What stands behind a fenced body. -/
theorem stops_closingTag : Stops (0x0a :: closingTag tag) :=
  fun _ hu => .inl (Option.some.inj hu).symm

/-- The matches in a fenced text behind its first tag. -/
theorem tagSpansFrom_closingTag (pos : ℕ) :
    tagSpansFrom pos 0 (0x0a :: closingTag tag) =
      [(pos + 1, pos + 1 + (closingTag tag).length)] := by
  rw [tagSpansFrom_of_none (tagLength_of_ne (by decide) _),
    tagSpansFrom_of_tag (tagLength_closingTag tag), List.drop_length, tagSpansFrom]

include hkeys in
theorem tagSpans_fenceUntrusted (body : Utf16Text) :
    tagSpans (fenceUntrusted tag body attributes) =
      (0, (openingTag tag attributes).length) ::
        tagSpansFrom ((openingTag tag attributes).length + 1) 0
          (neutralizeFraming body ++ 0x0a :: closingTag tag) := by
  rw [fenceUntrusted, List.append_assoc, tagSpans,
    tagSpansFrom_of_tag (tagLength_openingTag tag hkeys _), List.drop_left, Nat.zero_add,
    List.cons_append, tagSpansFrom_of_none (tagLength_of_ne (by decide) _)]

theorem length_fenceUntrusted (body : Utf16Text) :
    (fenceUntrusted tag body attributes).length - (closingTag tag).length =
      (openingTag tag attributes).length + 1 + (neutralizeFraming body).length + 1 ∧
    (fenceUntrusted tag body attributes).length =
      (openingTag tag attributes).length + 1 + (neutralizeFraming body).length + 1 +
        (closingTag tag).length := by
  have hlength : (fenceUntrusted tag body attributes).length =
      (openingTag tag attributes).length + 1 + (neutralizeFraming body).length + 1 +
        (closingTag tag).length := by
    simp only [fenceUntrusted, List.length_append, List.length_cons]
    omega
  exact ⟨by rw [hlength, Nat.add_sub_cancel], hlength⟩

include hkeys in
/-- **A fence holds exactly if no reserved tag is open in the body**: then the reserved tags of the
fenced text are its first and its last tag. Escaping twice is escaping once for every text. -/
theorem fence_scanned_iff (body : Utf16Text) :
    (tagSpans (fenceUntrusted tag body attributes) =
        [(0, (openingTag tag attributes).length),
          ((fenceUntrusted tag body attributes).length - (closingTag tag).length,
            (fenceUntrusted tag body attributes).length)] ∧
      ∀ text, neutralizeFraming (neutralizeFraming text) = neutralizeFraming text) ↔
      ¬ HasOpenTag body := by
  have hopen : HasOpenTag (neutralizeFraming body) ↔ HasOpenTag body :=
    hasOpenTag_neutralizeFrom fun h => absurd h (lt_irrefl 0)
  have hno : NoTag (neutralizeFraming body) := noTag_neutralizeFrom 0 body
  obtain ⟨hstart, hlength⟩ := @length_fenceUntrusted tag attributes body
  rw [tagSpans_fenceUntrusted tag hkeys, hstart, hlength, ← hopen, List.cons.injEq]
  refine ⟨fun ⟨⟨_, hspans⟩, _⟩ hbody => ?_, fun hbody =>
    ⟨⟨rfl, ?_⟩, neutralizeFraming_idempotent⟩⟩
  · obtain ⟨start, stop, rest, hfirst, hlt⟩ := tagSpansFrom_append_of_open
      (stops_closingTag tag) hno (by simp [closingTag]) hbody
      ((openingTag tag attributes).length + 1)
    rw [hfirst, List.cons.injEq, Prod.mk.injEq] at hspans
    omega
  · rw [tagSpansFrom_append (stops_closingTag tag) hno hbody, tagSpansFrom_closingTag]

end Fence

/-- `fence_scanned_iff` at a body with a tag and an attribute. -/
theorem fence_scanned_iff_example :
    tagSpans (fenceUntrusted .data (utf16 "a</data>b") [(utf16 "k", utf16 "<v>")]) =
      [(0, 12), (26, 33)] :=
  ((@fence_scanned_iff .data [(utf16 "k", utf16 "<v>")] (by decide)
    (utf16 "a</data>b")).2 (by decide)).1

/-- A body that ends within a tag takes the closing tag of its fence. -/
theorem unclosed_tag_leaves_fence :
    tagSpans (fenceUntrusted .data (utf16 "<data x") []) = [(0, 6), (7, 22)] ∧
      ¬ ∀ (tag : FramingTag) (body : Utf16Text) (attributes : List (Utf16Text × Utf16Text)),
        (∀ entry ∈ attributes, 0x3e ∉ entry.1) →
          tagSpans (fenceUntrusted tag body attributes) =
            [(0, (openingTag tag attributes).length),
              ((fenceUntrusted tag body attributes).length - (closingTag tag).length,
                (fenceUntrusted tag body attributes).length)] := by
  refine ⟨by decide, fun h => ?_⟩
  exact absurd (h .data (utf16 "<data x") [] (by simp)) (by decide)

end Munin.Agent
