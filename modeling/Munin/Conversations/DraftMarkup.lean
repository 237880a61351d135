import Munin.Foundations.Runs
import Munin.Foundations.Utf16Text

/-!
# The markup of drafts

A draft marks what was added to it by `[[ ]]`, and by `{{ }}` the slots for what is still to be
filled in. The customer's text has the added passages without their markers, and the slots in single
brackets; markers that are left over are removed from it.

* **`parseDraftMarkup`** — the text, and the slots; `draftPieces` is how the pattern cuts up a
  draft.
* **`HidesMarkup`** — the law: no marker is in the text, and every slot is.
* **`SettledMarkup`** — the condition: in the pieces one after the other, two odd runs of a bracket
  are kept apart by something that stays, and a slot stands between odd runs.
* **`hidesMarkup_iff`** — the law holds of a draft exactly under the condition.
-/

namespace Munin

open Foundations

/-- `[`, `]`, `{` and `}`. -/
def isMarkerUnit (u : ℕ) : Bool := u ∈ [0x5b, 0x5d, 0x7b, 0x7d]

/-! ### Pieces -/

/-- A unit outside of markup, or a match: an added passage, or a slot. -/
inductive DraftPiece where
  | plain (u : ℕ)
  | added (text : Utf16Text)
  | slot (text : Utf16Text)
  deriving DecidableEq

/-- The units before the first two that close. -/
def untilClosed (close : ℕ) : Utf16Text → Option Utf16Text
  | u :: v :: rest =>
    if u = close ∧ v = close then some [] else (untilClosed close (v :: rest)).map (u :: ·)
  | _ => none

/-- `([\s\S]+?)` up to the two units that close. -/
def passage (close : ℕ) : Utf16Text → Option Utf16Text
  | [] => none
  | u :: rest => (untilClosed close rest).map (u :: ·)

/-- `MARKUP_PATTERN`, at the start of a text. -/
def markupAt (text : Utf16Text) : Option DraftPiece :=
  if [0x5b, 0x5b] <+: text then (passage 0x5d (text.drop 2)).map .added
  else if [0x7b, 0x7b] <+: text then (passage 0x7d (text.drop 2)).map .slot
  else none

namespace DraftPiece

/-- What is put in the place of a slot. -/
def slotToken (text : Utf16Text) : Utf16Text := 0x5b :: trimUnits text ++ [0x5d]

/-- The piece as it stands in the draft, -/
def source : DraftPiece → Utf16Text
  | plain u => [u]
  | added text => [0x5b, 0x5b] ++ text ++ [0x5d, 0x5d]
  | slot text => [0x7b, 0x7b] ++ text ++ [0x7d, 0x7d]

/-- and as it is replaced. -/
def text : DraftPiece → Utf16Text
  | plain u => [u]
  | added text => text
  | slot text => slotToken text

def isMarkup : DraftPiece → Bool
  | plain _ => false
  | _ => true

/-- The slots, in the order of the first piece of each. -/
def addSlot (slots : List Utf16Text) : DraftPiece → List Utf16Text
  | slot text => if slotToken text ∈ slots then slots else slots ++ [slotToken text]
  | _ => slots

end DraftPiece

/-- The pieces that the matches of `MARKUP_PATTERN` cut a draft into, `skip` units being in the last
match. -/
def draftPieces : ℕ → Utf16Text → List DraftPiece
  | _, [] => []
  | skip + 1, _ :: rest => draftPieces skip rest
  | 0, u :: rest =>
    match markupAt (u :: rest) with
    | some piece => piece :: draftPieces (piece.source.length - 1) rest
    | none => .plain u :: draftPieces 0 rest

/-! ### The code -/

structure ParsedDraft where
  body : Utf16Text
  annotated : Option Utf16Text
  slots : List Utf16Text
  deriving DecidableEq

def parseDraftMarkup (raw : Utf16Text) : ParsedDraft :=
  let pieces := draftPieces 0 raw
  let replaced := pieces.flatMap DraftPiece.text
  { body := dropPairs isMarkerUnit replaced
    annotated := if pieces.any DraftPiece.isMarkup then some raw else none
    slots := pieces.foldl DraftPiece.addSlot [] }

/-! ### The law -/

/-- **The law**: no marker is in the text, and every slot is. -/
structure HidesMarkup (parsed : ParsedDraft) : Prop where
  markers : ∀ b, isMarkerUnit b = true → ¬ [b, b] <:+: parsed.body
  slots : ∀ slot ∈ parsed.slots, slot <:+: parsed.body

/-- **The condition**, on the pieces of a draft. -/
structure SettledMarkup (pieces : List DraftPiece) : Prop where
  /-- Between two odd runs of a bracket are not only even runs of brackets, which leave nothing. -/
  apart : ∀ b, isMarkerUnit b = true →
    ¬ Between isMarkerUnit b b [] (runs (pieces.flatMap DraftPiece.text))
  /-- The text of a slot stands between an odd run of `[` and one of `]`. -/
  slots : ∀ text, .slot text ∈ pieces →
    Between isMarkerUnit 0x5b 0x5d (trimUnits text) (runs (pieces.flatMap DraftPiece.text))

theorem mem_foldl_addSlot {pieces : List DraftPiece} {slots : List Utf16Text} {slot : Utf16Text} :
    slot ∈ pieces.foldl DraftPiece.addSlot slots ↔
      slot ∈ slots ∨ ∃ text, .slot text ∈ pieces ∧ slot = DraftPiece.slotToken text := by
  induction pieces generalizing slots with
  | nil => simp
  | cons piece pieces ih =>
    rw [List.foldl_cons, ih]
    have hadd : slot ∈ DraftPiece.addSlot slots piece ↔
        slot ∈ slots ∨ ∃ text, piece = .slot text ∧ slot = DraftPiece.slotToken text := by
      cases piece with
      | plain u => simp [DraftPiece.addSlot]
      | added text => simp [DraftPiece.addSlot]
      | slot text =>
        rw [DraftPiece.addSlot]
        split_ifs with hmem
        · refine ⟨.inl, ?_⟩
          rintro (h | ⟨_, heq, rfl⟩)
          · exact h
          · exact DraftPiece.slot.inj heq ▸ hmem
        · simp
    rw [hadd]
    simp only [List.mem_cons]
    constructor
    · rintro ((h | ⟨text, rfl, heq⟩) | ⟨text, hmem, heq⟩)
      · exact .inl h
      · exact .inr ⟨text, .inl rfl, heq⟩
      · exact .inr ⟨text, .inr hmem, heq⟩
    · rintro (h | ⟨text, rfl | hmem, heq⟩)
      · exact .inl (.inl h)
      · exact .inl (.inr ⟨text, rfl, heq⟩)
      · exact .inr ⟨text, hmem, heq⟩

/-! ### The law, exactly -/

/-- **When a draft's markup is hidden.** No marker is in the text and every slot is, if and only if
the pieces of the draft meet the condition. -/
theorem hidesMarkup_iff (raw : Utf16Text) :
    HidesMarkup (parseDraftMarkup raw) ↔ SettledMarkup (draftPieces 0 raw) := by
  have hmarkers (b : ℕ) (hb : isMarkerUnit b = true) :=
    infix_dropPairs_iff (x := []) (l := (draftPieces 0 raw).flatMap DraftPiece.text) hb hb
  have hslots (text : Utf16Text) : DraftPiece.slotToken text <:+: (parseDraftMarkup raw).body ↔
      Between isMarkerUnit 0x5b 0x5d (trimUnits text)
        (runs ((draftPieces 0 raw).flatMap DraftPiece.text)) :=
    infix_dropPairs_iff (by decide) (by decide)
  constructor
  · intro hlaw
    refine ⟨fun b hb hbetween => hlaw.markers b hb ((hmarkers b hb).2 hbetween),
      fun text hmem => (hslots text).1 (hlaw.slots _ ?_)⟩
    exact mem_foldl_addSlot.2 (.inr ⟨text, hmem, rfl⟩)
  · intro hcond
    refine ⟨fun b hb hpair => hcond.apart b hb ((hmarkers b hb).1 hpair), fun slot hslot => ?_⟩
    obtain ⟨text, hmem, rfl⟩ := (mem_foldl_addSlot.1 hslot).resolve_left List.not_mem_nil
    exact (hslots text).2 (hcond.slots text hmem)

/-- A slot may stand next to other brackets, and lose its own. -/
example : parseDraftMarkup (utf16 "[\x7b\x7b DATO \x7d\x7d") =
    ⟨utf16 "DATO]", some (utf16 "[\x7b\x7b DATO \x7d\x7d"), [utf16 "[DATO]"]⟩ := by
  decide +kernel

/-- **Removing the stray markers of a draft makes a new one.** -/
theorem stray_markers_make_new :
    (parseDraftMarkup (utf16 "[\x7b\x7b[")).body = utf16 "[[" ∧
      ¬ HidesMarkup (parseDraftMarkup (utf16 "[\x7b\x7b[")) := by
  have hbody : (parseDraftMarkup (utf16 "[\x7b\x7b[")).body = utf16 "[[" := by decide +kernel
  refine ⟨hbody, fun hlaw => hlaw.markers 0x5b (by decide) ?_⟩
  rw [hbody]
  exact List.infix_refl _

end Munin
