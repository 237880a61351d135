import Munin.Agent.HtmlMarkdown
import Mathlib.Algebra.Order.BigOperators.Group.List
import Mathlib.Algebra.Order.Group.Nat

/-!
# No words are lost in the clean-up

The builder cuts what it has written at places it has saved, trims it and moves markers in it. What
it has seen of the answer stays in it, in order.

* **`visibleText`** — what is seen of an answer: its known tags removed, its references decoded, its
  code as it stands.
* **`sublist_steps`** — the run law: what is seen of the steps is in what is written.
* **`addedTargets`**, **`safeTarget_of_mem_addedTargets`** — the targets that the clean-up writes.
* **`wordsKept_spec`** — the law. The text `&constructor;` is no reference, but a lookup finds it: it
  is replaced by the text of a function.
-/

namespace Munin.Agent.Html

open Foundations Regex Conversations
open scoped List

/-! ### What is seen -/

/-- What of a text is seen. -/
def ink (text : Utf16Text) : Utf16Text := text.filter fun u => !isBlankUnit u

theorem ink_append (a b : Utf16Text) : ink (a ++ b) = ink a ++ ink b := List.filter_append _ _

/-- Blanks are not seen. -/
theorem ink_eq_nil {text : Utf16Text} (h : ∀ u ∈ text, isBlankUnit u = true) : ink text = [] :=
  List.filter_eq_nil_iff.2 fun u hu => by rw [h u hu]; decide

/-- Trimming loses nothing that is seen. -/
theorem ink_trimUnits (text : Utf16Text) : ink (trimUnits text) = ink text := by
  obtain ⟨before, after, htext, hbefore, hafter⟩ := exists_trimUnits text
  conv_rhs => rw [htext, ink_append, ink_append, ink_eq_nil hbefore, ink_eq_nil hafter,
    List.nil_append, List.append_nil]

theorem ink_slice (text : Utf16Text) {i j : ℕ} (hij : i ≤ j) :
    ink (text.drop i) = ink (sliceUnits text i j) ++ ink (text.drop j) := by
  rw [drop_eq_slice_append text hij, ink_append]

/-- Blanks that become blanks are not seen. -/
theorem ink_replaceAll {r : Regex} (hr : r.only isBlankUnit = true) {new : Utf16Text}
    (hnew : ink new = []) (text : Utf16Text) : ink (replaceAll id r text new) = ink text := by
  rw [replaceAll_eq]
  refine replaceAllWith_induction (fun i out => ink out = ink (text.drop i)) (fun _ _ => rfl)
    fun i m out _ hi hm _ hmatch ih => ?_
  rw [ink_append, ink_append, hnew, ih, ink_slice text hi, ink_slice text hm,
    ink_eq_nil (all_of_only hr hmatch)]

/-- Nor are blanks that are removed. -/
theorem ink_replaceFirst {r : Regex} (hr : r.only isBlankUnit = true) (text : Utf16Text) :
    ink (replaceFirst id r text []) = ink text := by
  rw [replaceFirst]
  cases hexec : exec id r text with
  | none => rfl
  | some m =>
    obtain ⟨hi, hm, -, hmatch⟩ := matches_of_execFrom hexec
    have hcut := ink_slice text hi
    rw [ink_slice text hm, ink_eq_nil (all_of_only hr hmatch)] at hcut
    rw [Option.toList_some, replaceMatches, replaceMatches, List.append_nil, ink_append]
    exact hcut.symm

/-! ### What the builder keeps -/

namespace MarkdownBuilder

variable {b : MarkdownBuilder} {raw s marker label : Utf16Text} {n : ℕ}

/-- The patterns of what is removed or written anew match blanks only. -/
theorem only_blanks : (rx "\\s*\\n\\s*").only isBlankUnit = true ∧
    (rx "^\\s+").only isBlankUnit = true ∧ (rx "\\s+$").only isBlankUnit = true ∧
    (rx "\\n\x7b3,\x7d").only isBlankUnit = true ∧
    (rx "[ \\t]+\\n").only isBlankUnit = true := by
  decide +kernel

/-- A text is seen as it comes, whatever becomes of its blanks. -/
theorem ink_textToWrite : ink (b.textToWrite raw) = ink raw := by
  have hline : ∀ s, s = (if 0 < b.lists.length then replaceAll id (rx "\\s*\\n\\s*") raw [0x20]
      else raw) → ink s = ink raw := by
    rintro s rfl
    split_ifs
    · exact ink_replaceAll only_blanks.1 (by decide) raw
    · rfl
  unfold textToWrite
  generalize (if 0 < b.lists.length then replaceAll id (rx "\\s*\\n\\s*") raw [0x20]
    else raw) = s at hline
  split_ifs
  · exact (ink_replaceFirst only_blanks.2.1 s).trans (hline s rfl)
  · exact hline s rfl

theorem ink_trimEnd : ink b.trimEnd.out = ink b.out := ink_replaceFirst only_blanks.2.2.1 b.out

/-- The opening markers in store are written. -/
theorem ink_flush : ink b.flush.out = ink b.out ++ ink b.pendingOpen := by
  have hbreaks : ink (if 0 < b.pendingBreak ∧ 0 < b.out.length then
      List.replicate b.pendingBreak 0x0a else []) = [] := by
    refine ink_eq_nil fun u hu => ?_
    split_ifs at hu
    · rw [List.eq_of_mem_replicate hu]
      decide
    · cases hu
  rw [flush, ink_append, ink_append, hbreaks, List.nil_append]

theorem sublist_flush : ink b.out <+ ink b.flush.out := ink_flush ▸ List.sublist_append_left _ _

/-- Code is written as it stands. -/
theorem sublist_verbatim : ink b.out ++ ink s <+ ink (b.verbatim s).out := by
  rw [verbatim, ink_append]
  exact sublist_flush.append_right _

/-- **A text that is written is seen**, behind what was there. -/
theorem sublist_text : ink b.out ++ ink raw <+ ink (b.text raw).out := by
  have hraw : ink (b.textToWrite raw) = ink raw := ink_textToWrite
  rw [text, ← hraw]
  generalize b.textToWrite raw = s
  split_ifs with h
  · rw [h]
    exact (List.append_nil _).symm ▸ .refl _
  · rw [ink_append]
    exact sublist_flush.append_right _

theorem ink_block : ink (b.block n).out = ink b.out := ink_trimEnd

theorem ink_lineBreak : ink b.lineBreak.out = ink b.out := by
  rw [lineBreak]
  split_ifs
  · rw [ink_append, ink_trimEnd]
    exact List.append_nil _
  · exact ink_trimEnd

/-- The blanks at the end are there. -/
theorem take_append_trailing :
    b.out.take (b.out.length - b.trailing.length) ++ b.trailing = b.out := by
  rw [trailing]
  cases hexec : exec id (rx "\\s*$") b.out with
  | none =>
    rw [Option.map_none, Option.getD_none, List.length_nil, Nat.sub_zero, List.take_length,
      List.append_nil]
  | some m =>
    have hform : rx "\\s*$" =
        .seq (iter (units ⟨UnitClass.blankRanges, false⟩) 0 none true) (.seq stop empty) := by
      decide +kernel
    rw [hform] at hexec
    obtain ⟨-, hm, hlen, _, _, _, -, -, _, _, _, -, ⟨hafter, -⟩, -⟩ := matches_of_execFrom hexec
    have hstop : b.out.drop m.stop = [] := (List.append_eq_nil_iff.1 hafter).2
    have hcut := drop_eq_slice_append b.out hm
    rw [hstop, List.append_nil] at hcut
    have hlength := congrArg List.length hcut
    rw [List.length_drop] at hlength
    rw [Option.map_some, Option.getD_some, ← hlength, Nat.sub_sub_self (hm.trans hlen), ← hcut,
      List.take_append_drop]

/-- A closing marker goes before the blanks at the end. -/
theorem sublist_closeMark : ink b.out <+ ink (b.closeMark marker).out := by
  rw [closeMark]
  split_ifs
  · exact List.Sublist.refl _
  · conv_lhs => rw [← take_append_trailing (b := b)]
    rw [ink_append, ink_append, ink_append]
    exact (List.Sublist.refl _).append (List.sublist_append_right _ _)

theorem ink_openList {ordered : Bool} : ink (b.openList ordered).out = ink b.out := by
  rw [openList]
  split
  · exact ink_block (n := 2)
  · rfl

theorem ink_closeList : ink b.closeList.out = ink b.out := ink_block

theorem sublist_item (n : ℕ) (s : Utf16Text) : ink b.out <+ ink ((b.block n).verbatim s).out := by
  have h : ink (b.block n).out ++ ink s <+ ink ((b.block n).verbatim s).out := sublist_verbatim
  rw [ink_block] at h
  exact (List.sublist_append_left _ _).trans h

theorem sublist_listItem : ink b.out <+ ink b.listItem.out := by
  unfold listItem
  split
  · exact sublist_item 1 _
  · rename_i frame lists hlists
    let counted := { frame with
      counter := frame.counter + 1, markerWidth := (ListFrame.marker frame).length }
    exact sublist_item (b := { b with lists := counted :: lists }) 1 _

/-- A link has its label: where the label is not written, the target is or begins with it. -/
theorem label_sublist_linkText (href : Option Utf16Text) (label : Utf16Text) :
    label <+ linkText href label := by
  unfold linkText
  split
  · exact List.Sublist.refl _
  · exact List.Sublist.refl _
  · split_ifs with h
    · rcases h with rfl | rfl | rfl
      · exact List.nil_sublist _
      · exact List.Sublist.refl _
      · exact List.sublist_append_right _ _
    · exact ((List.sublist_append_left _ _).trans (List.sublist_append_right _ _))

/-- **A link keeps what is written**, wherever its label begins. -/
theorem sublist_closeLink : ink b.out <+ ink b.closeLink.out := by
  rw [closeLink]
  split
  · exact List.Sublist.refl _
  · rename_i link links _
    -- the label is cut off, trimmed and written again
    conv_lhs => rw [← List.take_append_drop link.start b.out]
    rw [ink_append, ink_append, ← ink_trimUnits (b.out.drop link.start)]
    exact (List.Sublist.refl _).append ((label_sublist_linkText _ _).filter _)

/-- **What a tag can do.** -/
theorem convertTag_induction {P : MarkdownBuilder → Prop} {closing : Bool} {name attrs : Utf16Text}
    (stay : P b) (lineBreak : P b.lineBreak) (block : ∀ b n, P b → P (b.block n))
    (closeList : P b.closeList) (openList : ∀ ordered, P (b.openList ordered))
    (listItem : P b.listItem)
    (closeMark : ∀ marker ∈ [utf16 "**", utf16 "*"], P (b.closeMark marker))
    (openMark : ∀ b, P b → ∀ marker ∈ [utf16 "**", utf16 "*"], P (b.openMark marker))
    (code : P (b.verbatim (utf16 "`")))
    (closeLink : name = utf16 "a" → closing = true → P b.closeLink)
    (openLink : P (b.openLink (readHref attrs))) : P (b.convertTag closing name attrs) := by
  have hstrong : utf16 "**" ∈ [utf16 "**", utf16 "*"] := List.mem_cons_self
  have hem : utf16 "*" ∈ [utf16 "**", utf16 "*"] := List.mem_cons_of_mem _ List.mem_cons_self
  unfold convertTag
  refine iteInduction (fun _ => lineBreak) fun _ => ?_
  refine iteInduction (fun _ => block b 2 stay) fun _ => ?_
  refine iteInduction (fun _ => block b 1 stay) fun _ => ?_
  refine iteInduction (fun _ => iteInduction (fun _ => closeList) fun _ => openList _) fun _ => ?_
  refine iteInduction (fun _ => iteInduction (fun _ => stay) fun _ => listItem) fun _ => ?_
  refine iteInduction (fun _ => iteInduction (fun _ => block _ 2 (closeMark _ hstrong)) fun _ =>
    openMark _ (block b 2 stay) _ hstrong) fun _ => ?_
  refine iteInduction (fun _ => iteInduction (fun _ => closeMark _ hstrong) fun _ =>
    openMark b stay _ hstrong) fun _ => ?_
  refine iteInduction (fun _ => iteInduction (fun _ => closeMark _ hem) fun _ =>
    openMark b stay _ hem) fun _ => ?_
  refine iteInduction (fun _ => code) fun _ => ?_
  exact iteInduction (fun hname => iteInduction (fun hclosing => closeLink hname hclosing) fun _ =>
    openLink) fun _ => stay

/-- A tag keeps what is written. -/
theorem sublist_convertTag (closing : Bool) (name attrs : Utf16Text) :
    ink b.out <+ ink (b.convertTag closing name attrs).out := by
  refine convertTag_induction (P := fun b' => ink b.out <+ ink b'.out) (.refl _) ?_
    (fun b' n h => ?_) ?_ (fun _ => ?_) sublist_listItem (fun _ _ => sublist_closeMark)
    (fun _ h _ _ => h) ((List.sublist_append_left _ _).trans sublist_verbatim)
    (fun _ _ => sublist_closeLink) sublist_flush
  · rw [ink_lineBreak]
  · rwa [ink_block]
  · rw [ink_closeList]
  · rw [ink_openList]

/-- The reply is what was written, but for blanks. -/
theorem ink_result : ink b.result = ink b.out := by
  obtain ⟨-, -, -, hlines, hends⟩ := only_blanks
  rw [result, ink_trimUnits, ink_replaceAll hlines (by decide), ink_replaceAll hends (by decide)]

end MarkdownBuilder

/-! ### The run -/

/-- What the builder is to write of a step. -/
def Step.written : Step → Utf16Text
  | .text raw => decodeEntities raw
  | .tag _ _ _ => []
  | .code word => word

/-- What is seen of a step. -/
def Step.visible : Step → Utf16Text
  | .text raw => decodeNames namedEntities raw
  | .tag _ _ _ => []
  | .code word => word

/-- **What is seen of an answer.** -/
def visibleText (source : Utf16Text) : Utf16Text := (sourceSteps source).flatMap Step.visible

/-- **What a step writes is seen**, behind what was there. -/
theorem sublist_step (b : MarkdownBuilder) (s : Step) :
    ink b.out ++ ink s.written <+ ink (b.step s).out := by
  cases s with
  | text raw => exact MarkdownBuilder.sublist_text
  | tag closing name attrs =>
    rw [Step.written, ink, ink, List.filter_nil, List.append_nil]
    exact MarkdownBuilder.sublist_convertTag closing name attrs
  | code text => exact MarkdownBuilder.sublist_verbatim

/-- **The run law**: what is to be written of the steps is in the reply, in order. -/
theorem sublist_steps (steps : List Step) (b : MarkdownBuilder) :
    ink b.out ++ ink (steps.flatMap Step.written) <+ ink (steps.foldl MarkdownBuilder.step b).out := by
  induction steps generalizing b with
  | nil => exact (List.append_nil _).symm ▸ .refl _
  | cons s steps ih =>
    rw [List.flatMap_cons, ink_append, ← List.append_assoc, List.foldl_cons]
    exact ((sublist_step b s).append_right _).trans (ih (b.step s))

/-- A text has no name that only the prototype of the table has. -/
def Unprototyped (raw : Utf16Text) : Prop :=
  ∀ m ∈ matchAll asciiCasing.canonicalize entityPattern raw,
    asciiCasing.lower (groupOf m raw 1) ≠ utf16 "constructor"

instance (raw : Utf16Text) : Decidable (Unprototyped raw) :=
  inferInstanceAs (Decidable (∀ m ∈ _, _ ≠ _))

/-- The texts among some steps. -/
def textsOf (steps : List Step) : List Utf16Text :=
  steps.filterMap fun
    | .text raw => some raw
    | _ => none

variable {raw source : Utf16Text} {b : MarkdownBuilder}

theorem mem_textsOf {steps : List Step} : raw ∈ textsOf steps ↔ .text raw ∈ steps := by
  rw [textsOf, List.mem_filterMap]
  constructor
  · rintro ⟨s, hs, heq⟩
    cases s with
    | text => exact Option.some.inj heq ▸ hs
    | tag => cases heq
    | code => cases heq
  · exact fun hs => ⟨_, hs, rfl⟩

/-- No text of an answer between its known tags and its code has such a name. -/
def NamesOnly (source : Utf16Text) : Prop :=
  ∀ raw ∈ textsOf (sourceSteps source), Unprototyped raw

instance (source : Utf16Text) : Decidable (NamesOnly source) :=
  inferInstanceAs (Decidable (∀ raw ∈ _, Unprototyped raw))

/-- Another name is looked up in the table alone. -/
theorem decodeEntity_eq {whole ref : Utf16Text} (h : asciiCasing.lower ref ≠ utf16 "constructor") :
    decodeEntity (namedEntities ++ inheritedNames) whole ref =
      decodeEntity namedEntities whole ref := by
  have hinherited : inheritedNames.lookup (asciiCasing.lower ref) = none := by
    rw [inheritedNames, List.lookup_cons, beq_false_of_ne h]
    rfl
  rw [decodeEntity, decodeEntity, List.lookup_append, hinherited, Option.or_none]

theorem replaceMatchesWith_congr {text : Utf16Text} {f g : Match → Utf16Text} {ms : List Match}
    (h : ∀ m ∈ ms, f m = g m) (i : ℕ) :
    replaceMatchesWith text f i ms = replaceMatchesWith text g i ms := by
  induction ms generalizing i with
  | nil => rfl
  | cons m ms ih =>
    rw [replaceMatchesWith, replaceMatchesWith, h m List.mem_cons_self,
      ih fun m hm => h m (List.mem_cons_of_mem _ hm)]

theorem decodeEntities_eq (h : Unprototyped raw) :
    decodeEntities raw = decodeNames namedEntities raw :=
  replaceMatchesWith_congr (fun m hm => decodeEntity_eq (h m hm)) 0

/-- The builder is to write what is seen. -/
theorem written_eq_visible (h : NamesOnly source) :
    (sourceSteps source).flatMap Step.written = visibleText source := by
  refine List.flatMap_congr fun s hs => ?_
  cases s with
  | text raw => exact decodeEntities_eq (h raw (mem_textsOf.2 hs))
  | tag => rfl
  | code => rfl

/-! ### The targets -/

/-- The target that closing a link writes. -/
def MarkdownBuilder.closedTarget (b : MarkdownBuilder) : List Utf16Text :=
  match b.links with
  | ⟨_, some (u :: href)⟩ :: _ => [u :: href]
  | _ => []

/-- The target that a step writes. -/
def MarkdownBuilder.stepTarget (b : MarkdownBuilder) : Step → List Utf16Text
  | .tag true name _ => if name = utf16 "a" then b.closedTarget else []
  | _ => []

/-- The targets that a run writes. -/
def targetsFrom : List Step → MarkdownBuilder → List Utf16Text
  | [], _ => []
  | s :: steps, b => b.stepTarget s ++ targetsFrom steps (b.step s)

/-- **The targets that the clean-up adds.** -/
def addedTargets (source : Utf16Text) : List Utf16Text := targetsFrom (sourceSteps source) {}

/-- A target with one of four schemes, in any letter case. -/
def SafeTarget (target : Utf16Text) : Prop :=
  ∃ scheme ∈ [utf16 "http:", utf16 "https:", utf16 "mailto:", utf16 "tel:"],
    scheme <+: target.map asciiLower

/-- The pattern lets four schemes pass. -/
theorem safeTarget_of_test {href : Utf16Text}
    (h : safeHref.test asciiCasing.canonicalize href = true) : SafeTarget href := by
  have hform : safeHref = .seq start (.seq (group 1 (.alt
      (literalThen (utf16 "http") (.seq (iter (units ⟨[(0x73, 0x73)], false⟩) 0 (some 1) true)
        (literalThen (utf16 ":") empty)))
      (.alt (literalThen (utf16 "mailto:") empty) (literalThen (utf16 "tel:") empty)))) empty) := by
    decide +kernel
  rw [hform] at h
  obtain ⟨before, w, after, c, rfl, _, w', _, rfl, ⟨rfl, rfl, rfl⟩, v, _, _, rfl, ⟨_, hw, -⟩, rfl,
    -⟩ := exists_matches_of_test h
  have hsafe : ∀ (scheme : Utf16Text) {w₁ : Utf16Text}, scheme ∈ [utf16 "http:", utf16 "https:",
      utf16 "mailto:", utf16 "tel:"] → w₁.map asciiLower = scheme → v = w₁ →
      SafeTarget ([] ++ ([] ++ (v ++ []) ++ after)) := by
    rintro scheme w₁ hmem rfl rfl
    refine ⟨_, hmem, after.map asciiLower, ?_⟩
    rw [List.append_nil, List.nil_append, List.nil_append, List.map_append]
  rcases hw with hw | hw | hw
  · obtain ⟨w₁, w₂, rfl, hhttp, x, y, _, rfl, hs, hcolon⟩ := matches_literal_anyCase (by decide) hw
    obtain ⟨z, _, rfl, hlower, rfl, -⟩ := matches_literal_anyCase (by decide) hcolon
    rcases (matches_optional_anyCase (by decide) hs).1 with rfl | hs
    · refine hsafe (utf16 "http:") List.mem_cons_self (List.map_append.trans ?_) rfl
      rw [hhttp, List.append_nil, List.nil_append, hlower]
      decide
    · refine hsafe (utf16 "https:") (List.mem_cons_of_mem _ List.mem_cons_self)
        (List.map_append.trans ?_) rfl
      rw [hhttp, List.append_nil, List.map_append, hs, hlower]
      decide
  · obtain ⟨w₁, w₂, rfl, hlower, rfl, -⟩ := matches_literal_anyCase (by decide) hw
    exact hsafe _ (by decide) hlower (List.append_nil _)
  · obtain ⟨w₁, w₂, rfl, hlower, rfl, -⟩ := matches_literal_anyCase (by decide) hw
    exact hsafe _ (by decide) hlower (List.append_nil _)

/-- What is read from a tag is safe. -/
theorem safeTarget_of_readHref {attrs href : Utf16Text} (h : readHref attrs = some href) :
    SafeTarget href := by
  unfold readHref at h
  dsimp only at h
  split_ifs at h with hsafe
  · rw [← Option.some.inj h]
    exact safeTarget_of_test hsafe

/-- The open links have safe targets. -/
def LinksSafe (b : MarkdownBuilder) : Prop :=
  ∀ link ∈ b.links, ∀ href ∈ link.href, SafeTarget href

theorem links_lineBreak (b : MarkdownBuilder) : b.lineBreak.links = b.links := by
  unfold MarkdownBuilder.lineBreak
  split_ifs <;> rfl

theorem links_openList (b : MarkdownBuilder) (ordered : Bool) :
    (b.openList ordered).links = b.links := by
  unfold MarkdownBuilder.openList
  split <;> rfl

theorem links_listItem (b : MarkdownBuilder) : b.listItem.links = b.links := by
  unfold MarkdownBuilder.listItem
  split <;> rfl

theorem links_closeMark (b : MarkdownBuilder) (marker : Utf16Text) :
    (b.closeMark marker).links = b.links := by
  unfold MarkdownBuilder.closeMark
  split_ifs <;> rfl

theorem links_closeLink (b : MarkdownBuilder) : b.closeLink.links = b.links.tail := by
  unfold MarkdownBuilder.closeLink
  split
  · rename_i hlinks
    rw [hlinks, List.tail_nil]
  · rename_i hlinks
    rw [hlinks, List.tail_cons]

theorem LinksSafe.of_links {b' : MarkdownBuilder} (h : LinksSafe b) (hlinks : b'.links = b.links) :
    LinksSafe b' := by
  unfold LinksSafe
  rw [hlinks]
  exact h

/-- A link is opened with a safe target or none. -/
theorem LinksSafe.openLink (h : LinksSafe b) {href : Option Utf16Text}
    (hhref : ∀ t ∈ href, SafeTarget t) : LinksSafe (b.openLink href) := by
  have hlinks : (b.openLink href).links = ⟨b.flush.out.length, href⟩ :: b.links := rfl
  unfold LinksSafe
  rw [hlinks]
  intro link hlink
  rcases List.mem_cons.1 hlink with heq | hlink
  · rw [heq]
    exact hhref
  · exact h link hlink

theorem LinksSafe.convertTag (h : LinksSafe b) (closing : Bool)
    (name attrs : Utf16Text) : LinksSafe (b.convertTag closing name attrs) := by
  refine MarkdownBuilder.convertTag_induction h (h.of_links (links_lineBreak b)) (fun _ _ h => h)
    (h.of_links rfl) (fun _ => h.of_links (links_openList b _)) (h.of_links (links_listItem b))
    (fun _ _ => h.of_links (links_closeMark b _)) (fun _ h _ _ => h) (h.of_links rfl)
    (fun _ _ => ?_) ?_
  · unfold LinksSafe
    rw [links_closeLink]
    exact fun link hlink => h link (List.mem_of_mem_tail hlink)
  · exact h.openLink fun _ => safeTarget_of_readHref

/-- The open links stay safe. -/
theorem LinksSafe.step (h : LinksSafe b) (s : Step) : LinksSafe (b.step s) := by
  cases s with
  | text raw =>
    rw [MarkdownBuilder.step, MarkdownBuilder.text]
    split_ifs <;> exact h
  | tag closing name attrs => exact h.convertTag closing name attrs
  | code text => exact h

/-- A target that a step writes is one of an open link. -/
theorem LinksSafe.stepTarget (h : LinksSafe b) {s : Step} {t : Utf16Text}
    (ht : t ∈ b.stepTarget s) : SafeTarget t := by
  unfold MarkdownBuilder.stepTarget at ht
  split at ht
  · split_ifs at ht
    · unfold MarkdownBuilder.closedTarget at ht
      split at ht
      · rename_i hlinks
        obtain rfl := List.mem_singleton.1 ht
        exact h _ (hlinks ▸ List.mem_cons_self) _ rfl
      · cases ht
    · cases ht
  · cases ht

/-- **The targets that are added are safe.** -/
theorem safeTarget_of_mem_addedTargets {t : Utf16Text} (h : t ∈ addedTargets source) :
    SafeTarget t := by
  have hrun : ∀ (steps : List Step) b, LinksSafe b → t ∈ targetsFrom steps b → SafeTarget t := by
    -- by induction on the steps: the open links stay safe
    intro steps
    induction steps with
    | nil => exact fun _ _ h => absurd h List.not_mem_nil
    | cons s steps ih =>
      exact fun b hb h => (List.mem_append.1 h).elim hb.stepTarget (ih _ (hb.step s))
  exact hrun _ _ (fun _ hlink => absurd hlink List.not_mem_nil) h

/-! ### What is replaced -/

/-- An ampersand is no blank. -/
theorem count_ink (text : Utf16Text) : (ink text).count 0x26 = text.count 0x26 :=
  List.count_filter (by decide)

/-- The builder has written at most `n` ampersands, and has none in store. -/
structure Tally (b : MarkdownBuilder) (n : ℕ) : Prop where
  out : b.out.count 0x26 ≤ n
  pendingOpen : 0x26 ∉ b.pendingOpen
  indents : ∀ frame ∈ b.lists, 0x26 ∉ frame.indent

namespace Tally

variable {b : MarkdownBuilder} {n : ℕ}

section Tallies

variable (h : Tally b n)

include h

theorem flush : Tally b.flush n := by
  refine ⟨?_, List.not_mem_nil, h.indents⟩
  rw [← count_ink, MarkdownBuilder.ink_flush, List.count_append, count_ink, count_ink,
    List.count_eq_zero.2 h.pendingOpen]
  exact h.out

theorem verbatim (s : Utf16Text) : Tally (b.verbatim s) (n + s.count 0x26) := by
  refine ⟨?_, List.not_mem_nil, h.indents⟩
  rw [MarkdownBuilder.verbatim, List.count_append]
  exact Nat.add_le_add_right h.flush.out _

theorem text (raw : Utf16Text) : Tally (b.text raw) (n + raw.count 0x26) := by
  have hcount : (b.textToWrite raw).count 0x26 = raw.count 0x26 := by
    rw [← count_ink, MarkdownBuilder.ink_textToWrite, count_ink]
  rw [← hcount, MarkdownBuilder.text]
  split_ifs
  · exact ⟨h.out.trans (Nat.le_add_right _ _), h.pendingOpen, h.indents⟩
  · have hwritten := h.verbatim (b.textToWrite raw)
    exact ⟨hwritten.out, hwritten.pendingOpen, hwritten.indents⟩

theorem block (newlines : ℕ) : Tally (b.block newlines) n := by
  refine ⟨?_, List.not_mem_nil, h.indents⟩
  rw [← count_ink, MarkdownBuilder.ink_block, count_ink]
  exact h.out

theorem lineBreak : Tally b.lineBreak n := by
  have hout : b.lineBreak.out.count 0x26 ≤ n := by
    rw [← count_ink, MarkdownBuilder.ink_lineBreak, count_ink]
    exact h.out
  unfold MarkdownBuilder.lineBreak at hout ⊢
  split_ifs at hout ⊢
  · exact ⟨hout, h.pendingOpen, h.indents⟩
  · exact ⟨hout, h.pendingOpen, h.indents⟩

theorem openMark {marker : Utf16Text} (hmarker : 0x26 ∉ marker) :
    Tally (b.openMark marker) n :=
  ⟨h.out, fun hmem => (List.mem_append.1 hmem).elim h.pendingOpen hmarker, h.indents⟩

theorem closeMark {marker : Utf16Text} (hmarker : 0x26 ∉ marker) :
    Tally (b.closeMark marker) n := by
  unfold MarkdownBuilder.closeMark
  split_ifs
  · exact ⟨h.out, fun hmem => h.pendingOpen (List.mem_of_mem_take hmem), h.indents⟩
  · refine ⟨?_, h.pendingOpen, h.indents⟩
    have hout := congrArg (List.count 0x26) (MarkdownBuilder.take_append_trailing (b := b))
    rw [List.count_append] at hout
    rw [List.count_append, List.count_append, List.count_eq_zero.2 hmarker, Nat.zero_add, hout]
    exact h.out

theorem openList (ordered : Bool) : Tally (b.openList ordered) n := by
  unfold MarkdownBuilder.openList
  split
  · exact ⟨(h.block 2).out, List.not_mem_nil, fun frame hframe => by
      rw [List.mem_singleton.1 hframe]
      exact List.not_mem_nil⟩
  · rename_i parent lists hlists
    refine ⟨h.out, h.pendingOpen, fun frame hframe => ?_⟩
    rcases List.mem_cons.1 hframe with heq | hframe
    · rw [heq]
      intro hmem
      rcases List.mem_append.1 hmem with hmem | hmem
      · exact h.indents parent (hlists ▸ List.mem_cons_self) hmem
      · exact absurd (List.eq_of_mem_replicate hmem) (by decide)
    · exact h.indents frame hframe

theorem closeList : Tally b.closeList n := by
  have htail : Tally { b with lists := b.lists.tail } n :=
    ⟨h.out, h.pendingOpen, fun frame hframe => h.indents frame (List.mem_of_mem_tail hframe)⟩
  exact htail.block _

omit h in
theorem not_mem_toString (k : ℕ) : 0x26 ∉ utf16 (toString k) := by
  intro hmem
  obtain ⟨c, hc, hu⟩ := List.mem_flatMap.1 hmem
  have hchars : (toString k).toList = Nat.toDigits 10 k := Nat.toList_repr
  rw [hchars] at hc
  have hdigit := Nat.isDigit_of_mem_toDigits (by decide) (by decide) hc
  rw [Char.isDigit, Bool.and_eq_true, decide_eq_true_eq] at hdigit
  have hlow : 0x30 ≤ c.toNat := hdigit.1
  unfold charUtf16 at hu
  split_ifs at hu <;> simp only [List.mem_cons, List.not_mem_nil, or_false] at hu <;> omega

omit h in
theorem not_mem_marker (frame : ListFrame) : 0x26 ∉ MarkdownBuilder.ListFrame.marker frame := by
  unfold MarkdownBuilder.ListFrame.marker
  split_ifs
  · exact fun hmem => (List.mem_append.1 hmem).elim (not_mem_toString _) (by decide)
  · decide

theorem listItem : Tally b.listItem n := by
  unfold MarkdownBuilder.listItem
  split
  · have hitem := (h.block 1).verbatim (utf16 "- ")
    exact ⟨hitem.out, hitem.pendingOpen, hitem.indents⟩
  · rename_i frame lists hlists
    have hframe : 0x26 ∉ frame.indent := h.indents frame (hlists ▸ List.mem_cons_self)
    let counted := { frame with
      counter := frame.counter + 1, markerWidth := (MarkdownBuilder.ListFrame.marker frame).length }
    have hcounted : Tally { b with lists := counted :: lists } n := by
      refine ⟨h.out, h.pendingOpen, fun other hother => ?_⟩
      rcases List.mem_cons.1 hother with heq | hother
      · rw [heq]
        exact hframe
      · exact h.indents other (hlists ▸ List.mem_cons_of_mem _ hother)
    have hitem := (hcounted.block 1).verbatim
      (frame.indent ++ MarkdownBuilder.ListFrame.marker frame)
    rw [List.count_append, List.count_eq_zero.2 hframe,
      List.count_eq_zero.2 (not_mem_marker frame)] at hitem
    exact ⟨hitem.out, hitem.pendingOpen, hitem.indents⟩

theorem openLink (href : Option Utf16Text) : Tally (b.openLink href) n :=
  ⟨h.flush.out, h.flush.pendingOpen, h.indents⟩

omit h in
/-- A link with a target that has no ampersand. -/
theorem count_linkText {href : Option Utf16Text} (label : Utf16Text)
    (hclean : ∀ t ∈ href, 0x26 ∉ t) :
    (MarkdownBuilder.linkText href label).count 0x26 ≤ label.count 0x26 := by
  unfold MarkdownBuilder.linkText
  split
  · exact Nat.le_refl _
  · exact Nat.le_refl _
  · have hhref := List.count_eq_zero.2 (hclean _ rfl)
    split_ifs
    · rw [hhref]
      exact Nat.zero_le _
    · rw [List.count_append, List.count_append, List.count_append, List.count_append, hhref]
      exact Nat.le_of_eq (Nat.zero_add _)

theorem closeLink (hclean : ∀ t ∈ b.closedTarget, 0x26 ∉ t) :
    Tally b.closeLink n := by
  unfold MarkdownBuilder.closeLink
  split
  · exact h
  · rename_i link links hlinks
    refine ⟨?_, h.pendingOpen, h.indents⟩
    have htarget : ∀ t ∈ link.href, 0x26 ∉ t := by
      rintro t ht
      rcases t with _ | ⟨u, t⟩
      · exact List.not_mem_nil
      · obtain ⟨start, href⟩ := link
        obtain rfl : href = some (u :: t) := ht
        refine hclean _ ?_
        rw [MarkdownBuilder.closedTarget, hlinks]
        exact List.mem_cons_self
    have hlabel : (trimUnits (b.out.drop link.start)).count 0x26 =
        (b.out.drop link.start).count 0x26 := by
      rw [← count_ink, ink_trimUnits, count_ink]
    have hout := congrArg (List.count 0x26) (List.take_append_drop link.start b.out)
    rw [List.count_append] at hout
    rw [List.count_append]
    have hlink := count_linkText (trimUnits (b.out.drop link.start)) htarget
    have hn := h.out
    omega

/-- **A step** writes the ampersands of its text and no others. -/
theorem step (s : Step) (hclean : ∀ t ∈ b.stepTarget s, 0x26 ∉ t) :
    Tally (b.step s) (n + s.written.count 0x26) := by
  cases s with
  | text raw => exact h.text _
  | tag closing name attrs =>
    have hmarkers : ∀ marker ∈ [utf16 "**", utf16 "*"], 0x26 ∉ marker := by decide
    refine MarkdownBuilder.convertTag_induction (P := fun b => Tally b n) h h.lineBreak
      (fun _ newlines h => h.block newlines) h.closeList h.openList h.listItem
      (fun marker hm => h.closeMark (hmarkers marker hm))
      (fun _ h marker hm => h.openMark (hmarkers marker hm)) (h.verbatim (utf16 "`"))
      (fun hname hclosing => h.closeLink fun t ht => hclean t ?_) (h.openLink _)
    rw [hclosing, MarkdownBuilder.stepTarget, if_pos hname]
    exact ht
  | code word => exact h.verbatim word

end Tallies

/-- **The ampersands of a run** are those of what is written, if no target has one. -/
theorem steps (steps : List Step) (h : Tally b n) (hclean : ∀ t ∈ targetsFrom steps b, 0x26 ∉ t) :
    Tally (steps.foldl MarkdownBuilder.step b)
      (n + (steps.flatMap Step.written).count 0x26) := by
  induction steps generalizing b n with
  | nil => exact h
  | cons s steps ih =>
    rw [List.flatMap_cons, List.count_append, ← Nat.add_assoc, List.foldl_cons]
    exact ih (h.step s fun t ht => hclean t (List.mem_append_left _ ht))
      fun t ht => hclean t (List.mem_append_right _ ht)

end Tally

/-- The replaced matches are counted apart from the text between them. -/
theorem count_replaceMatchesWith (text : Utf16Text) (f : Match → Utf16Text) (i : ℕ)
    (ms : List Match) (u : ℕ) : (replaceMatchesWith text f i ms).count u =
      (replaceMatchesWith text (fun _ => []) i ms).count u +
        (ms.map fun m => (f m).count u).sum := by
  induction ms generalizing i with
  | nil => rfl
  | cons m ms ih =>
    rw [replaceMatchesWith, replaceMatchesWith, List.count_append, List.count_append,
      List.count_append, List.count_append, ih m.stop, List.map_cons, List.sum_cons,
      List.count_nil]
    omega

/-- A reference begins with an ampersand. -/
theorem count_reference_pos {m : Match}
    (hm : m ∈ matchAll asciiCasing.canonicalize entityPattern raw) :
    0 < (sliceUnits raw m.start m.stop).count 0x26 := by
  obtain ⟨-, -, hmatch⟩ := (matchChain_matchAll _ _).matches_of_mem hm
  have hform : entityPattern = literalThen [0x26] (.seq (group 1 (.alt
      (literalThen (utf16 "#x")
        (.seq (iter (units ⟨[(0x30, 0x39), (0x61, 0x66)], false⟩) 1 none true) empty))
      (.alt (literalThen [0x23] (.seq (iter (units ⟨[(0x30, 0x39)], false⟩) 1 none true) empty))
        (.seq (iter (units ⟨[(0x61, 0x7a)], false⟩) 1 none true) empty))))
      (literalThen (utf16 ";") empty)) := by decide +kernel
  rw [hform] at hmatch
  obtain ⟨w₁, w₂, hw, hlower, -⟩ := matches_literal_anyCase (by decide) hmatch
  obtain ⟨u, rfl, hu⟩ := List.map_eq_singleton_iff.1 hlower
  obtain rfl : u = 0x26 := by
    unfold asciiLower at hu
    split_ifs at hu <;> omega
  rw [hw]
  exact List.count_pos_iff.2 (List.mem_append_left _ List.mem_cons_self)

/-- The name of the prototype loses its ampersand. -/
theorem count_constructor (whole : Utf16Text) {ref : Utf16Text}
    (h : asciiCasing.lower ref = utf16 "constructor") :
    (decodeEntity (namedEntities ++ inheritedNames) whole ref).count 0x26 = 0 ∧
      decodeEntity namedEntities whole ref = whole := by
  have hhead : ref.head? ≠ some 0x23 := by
    intro hhead
    obtain ⟨rest, rfl⟩ := List.head?_eq_some_iff.1 hhead
    have hfirst := congrArg List.head? h
    exact absurd hfirst (by simp [asciiCasing]; decide)
  constructor
  · have hfound : (namedEntities ++ inheritedNames).lookup (utf16 "constructor") =
        some (utf16 "function Object() \x7b [native code] \x7d") := by decide
    rw [decodeEntity, if_neg hhead, h, hfound, Option.getD_some]
    decide
  · rw [decodeEntity, if_neg hhead, h]
    have hnone : namedEntities.lookup (utf16 "constructor") = none := by decide
    rw [hnone, Option.getD_none]

/-- A match leaves at most the ampersands that it is to leave, -/
theorem count_decodeEntity_le (m : Match) :
    (decodeEntity (namedEntities ++ inheritedNames) (sliceUnits raw m.start m.stop)
      (groupOf m raw 1)).count 0x26 ≤
    (decodeEntity namedEntities (sliceUnits raw m.start m.stop) (groupOf m raw 1)).count 0x26 := by
  by_cases h : asciiCasing.lower (groupOf m raw 1) = utf16 "constructor"
  · rw [(count_constructor _ h).1]
    exact Nat.zero_le _
  · rw [decodeEntity_eq h]

theorem count_decodeEntities_le (raw : Utf16Text) :
    (decodeEntities raw).count 0x26 ≤ (decodeNames namedEntities raw).count 0x26 := by
  rw [decodeEntities, decodeNames, decodeNames, replaceAllWith, replaceAllWith,
    count_replaceMatchesWith, count_replaceMatchesWith raw (fun m => decodeEntity namedEntities _ _)]
  exact Nat.add_le_add_left (List.sum_le_sum fun m _ => count_decodeEntity_le m) _

/-- and fewer if the name is one that only the prototype has. -/
theorem count_decodeEntities_lt (h : ¬ Unprototyped raw) :
    (decodeEntities raw).count 0x26 < (decodeNames namedEntities raw).count 0x26 := by
  obtain ⟨m, hm, hname⟩ : ∃ m ∈ matchAll asciiCasing.canonicalize entityPattern raw,
      asciiCasing.lower (groupOf m raw 1) = utf16 "constructor" := by
    unfold Unprototyped at h
    push Not at h
    exact h
  obtain ⟨hzero, hwhole⟩ := count_constructor (sliceUnits raw m.start m.stop) hname
  rw [decodeEntities, decodeNames, decodeNames, replaceAllWith, replaceAllWith,
    count_replaceMatchesWith, count_replaceMatchesWith raw (fun m => decodeEntity namedEntities _ _)]
  refine Nat.add_lt_add_left (List.sum_lt_sum _ _ (fun m _ => count_decodeEntity_le m)
    ⟨m, hm, ?_⟩) _
  rw [hzero, hwhole]
  exact count_reference_pos hm

/-- An answer with such a name loses an ampersand. -/
theorem count_written_lt (h : ¬ NamesOnly source) :
    ((sourceSteps source).flatMap Step.written).count 0x26 < (visibleText source).count 0x26 := by
  obtain ⟨raw, hmem, hraw⟩ : ∃ raw ∈ textsOf (sourceSteps source), ¬ Unprototyped raw := by
    unfold NamesOnly at h
    push Not at h
    exact h
  rw [visibleText, List.count_flatMap, List.count_flatMap]
  refine List.sum_lt_sum _ _ (fun s _ => ?_) ⟨_, mem_textsOf.1 hmem, count_decodeEntities_lt hraw⟩
  cases s with
  | text raw => exact count_decodeEntities_le raw
  | tag => exact Nat.le_refl _
  | code => exact Nat.le_refl _

/-! ### The law -/

/-- No words are lost: what is seen of the answer stays, in order, and targets are safe. -/
structure WordsKept (source : Utf16Text) : Prop where
  words : (visibleText source).filter (fun u => !isBlankUnit u) <+ htmlToMarkdown source
  targets : ∀ t ∈ addedTargets source, SafeTarget t

/-- **When no words are lost**: if no text has a name that only the prototype of the table has;
and where no added target has an ampersand, only then. -/
theorem wordsKept_spec {source : Utf16Text} (h : hasKnownTag (parts source) = true) :
    (NamesOnly source → WordsKept source) ∧
      ((∀ t ∈ addedTargets source, 0x26 ∉ t) → (WordsKept source ↔ NamesOnly source)) := by
  have hout : htmlToMarkdown source =
      ((sourceSteps source).foldl MarkdownBuilder.step {}).result := if_pos h
  have hkept : NamesOnly source → WordsKept source := by
    intro hnames
    refine ⟨?_, fun t ht => safeTarget_of_mem_addedTargets ht⟩
    have hrun := sublist_steps (sourceSteps source) {}
    rw [written_eq_visible hnames, ← MarkdownBuilder.ink_result (b := List.foldl _ _ _),
      ← hout] at hrun
    exact ((List.sublist_append_right _ _).trans hrun).trans List.filter_sublist
  refine ⟨hkept, fun hclean => ⟨fun hwords => ?_, hkept⟩⟩
  -- else the reply has fewer ampersands than are seen of the answer
  by_contra hnames
  have hempty : Tally {} 0 := ⟨Nat.le_refl 0, List.not_mem_nil, fun _ h => absurd h List.not_mem_nil⟩
  have htally := (hempty.steps (sourceSteps source) hclean).out
  rw [Nat.zero_add, ← count_ink, ← MarkdownBuilder.ink_result, ← hout, count_ink] at htally
  have hseen := hwords.words.count_le 0x26
  rw [List.count_filter (by decide)] at hseen
  have hlt := count_written_lt hnames
  omega

/-- The text of a function for a name: the ampersand and the name are lost. -/
theorem constructor_lost : hasKnownTag (parts (utf16 "<p>&constructor;</p>")) = true ∧
    ¬ WordsKept (utf16 "<p>&constructor;</p>") :=
  ⟨by decide +kernel, fun h => absurd h.words (by decide +kernel)⟩

theorem wordsKept_spec_link : WordsKept (utf16 "<b>A &amp; B</b> <a href='tel:1'>call</a>") := by
  have h : hasKnownTag (parts (utf16 "<b>A &amp; B</b> <a href='tel:1'>call</a>")) = true := by
    decide +kernel
  exact (wordsKept_spec h).1 (by decide +kernel)

end Munin.Agent.Html
