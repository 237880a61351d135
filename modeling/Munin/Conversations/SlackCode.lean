import Munin.Conversations.SlackSafety

/-!
# Code in messages to Slack

Code is put aside before a message is converted, and put back at the end. What is put back is not
looked at again: where the code itself has a placeholder, because a fenced block was in it, the
placeholder is posted and the block is lost. A placeholder is lost, too, with what a link leaves
out.

* **`Placed`** — texts whose only controls are placeholders, and their numbers; they pass through
  all stages (`carries_placed`).
* **`KeepsAllCode`**, **`SpansApart`** — the conditions: no placeholder stands in what a link leaves
  out, and no span has a fenced block in it.
* **`codeSurvives`** — the law holds under both; where links keep all code, it holds exactly if the
  spans are apart.
-/

namespace Munin.Conversations.Slack

open Foundations Regex

/-! ### Texts with placeholders -/

/-- A text without controls but the placeholders of numbers below `n`, and these numbers. -/
inductive Placed (n : ℕ) : Utf16Text → List ℕ → Prop
  | nil : Placed n [] []
  | unit {u : ℕ} {text : Utf16Text} {ks : List ℕ} (hu : u ≠ codeOpen ∧ u ≠ codeClose)
      (h : Placed n text ks) : Placed n (u :: text) ks
  | code {k : ℕ} {text : Utf16Text} {ks : List ℕ} (hk : k < n) (h : Placed n text ks) :
      Placed n (placeholder k ++ text) (k :: ks)

variable {u : ℕ} {ms : List Match} {before w after : Utf16Text} {c : Captured}

theorem isDigit_of_mem_decimalUnits {k : ℕ} (h : u ∈ decimalUnits k) : isAsciiDigit u = true := by
  obtain ⟨c, hc, rfl⟩ := List.mem_map.1 h
  have hdigit := Nat.isDigit_of_mem_toDigits (by decide) (by decide) hc
  rw [Char.isDigit, Bool.and_eq_true, decide_eq_true_eq, decide_eq_true_eq] at hdigit
  simp only [isAsciiDigit, Bool.and_eq_true, decide_eq_true_eq]
  exact ⟨hdigit.1, hdigit.2⟩

theorem numberOfDigits_decimalUnits (k : ℕ) : numberOfDigits (decimalUnits k) = k := by
  have hchars : (decimalUnits k).map Char.ofNat = Nat.toDigits 10 k := by
    rw [decimalUnits, List.map_map]
    exact List.map_id'' (fun c => Char.ofNat_toNat c) _
  rw [numberOfDigits, hchars, Nat.ofDigitChars_ten_toDigits]

theorem decimalUnits_ne_nil (k : ℕ) : decimalUnits k ≠ [] := fun h =>
  Nat.toDigits_ne_nil (List.map_eq_nil_iff.1 h)

/-- Digits up to a closing control are read in one way. -/
theorem digits_append_inj {a b x y : Utf16Text} (ha : ∀ u ∈ a, isAsciiDigit u = true)
    (hb : ∀ u ∈ b, isAsciiDigit u = true) (h : a ++ codeClose :: x = b ++ codeClose :: y) :
    a = b ∧ x = y := by
  induction a generalizing b with
  | nil =>
    cases b with
    | nil => exact ⟨rfl, (List.cons.inj h).2⟩
    | cons v b =>
      have hv := hb v List.mem_cons_self
      rw [← (List.cons.inj h).1] at hv
      exact absurd hv (by decide)
  | cons u a ih =>
    cases b with
    | nil =>
      have hu := ha u List.mem_cons_self
      rw [(List.cons.inj h).1] at hu
      exact absurd hu (by decide)
    | cons v b =>
      obtain ⟨rfl, hrest⟩ := List.cons.inj h
      obtain ⟨rfl, rfl⟩ := ih (fun w hw => ha w (List.mem_cons_of_mem _ hw))
        (fun w hw => hb w (List.mem_cons_of_mem _ hw)) hrest
      exact ⟨rfl, rfl⟩

namespace Placed

variable {n : ℕ} {text : Utf16Text} {ks : List ℕ}

/-- A text that begins with a unit of its own, -/
theorem of_cons {u : ℕ} (hu : u ≠ codeOpen) (h : Placed n (u :: text) ks) :
    u ≠ codeClose ∧ Placed n text ks := by
  generalize htext : u :: text = whole at h
  cases h with
  | nil => cases htext
  | unit hv h =>
    obtain ⟨rfl, rfl⟩ := List.cons.inj htext
    exact ⟨hv.2, h⟩
  | code _ _ => exact absurd (List.cons.inj htext).1 hu

/-- and one that begins with a placeholder. -/
theorem of_open (h : Placed n (codeOpen :: text) ks) : ∃ k rest ks', k < n ∧
    codeOpen :: text = placeholder k ++ rest ∧ ks = k :: ks' ∧ Placed n rest ks' := by
  generalize htext : codeOpen :: text = whole at h
  cases h with
  | nil => cases htext
  | unit hv h => exact absurd (List.cons.inj htext).1.symm hv.1
  | @code k rest ks' hk h => exact ⟨k, rest, ks', hk, rfl, rfl, h⟩

theorem placeholder_append_inj {j k : ℕ} {x y : Utf16Text}
    (h : placeholder j ++ x = placeholder k ++ y) : j = k ∧ x = y := by
  have hrest : (decimalUnits j ++ [codeClose]) ++ x = (decimalUnits k ++ [codeClose]) ++ y :=
    (List.cons.inj h).2
  rw [List.append_assoc, List.append_assoc] at hrest
  obtain ⟨hdigits, hxy⟩ := digits_append_inj (fun _ => isDigit_of_mem_decimalUnits)
    (fun _ => isDigit_of_mem_decimalUnits) hrest
  refine ⟨?_, hxy⟩
  rw [← numberOfDigits_decimalUnits j, hdigits, numberOfDigits_decimalUnits]

/-- A text has its placeholders in one way. -/
theorem unique {ks' : List ℕ} (h : Placed n text ks) (h' : Placed n text ks') : ks = ks' := by
  induction h generalizing ks' with
  | nil => cases h' with
    | nil => rfl
  | unit hu _ ih => exact ih (h'.of_cons hu.1).2
  | code hk _ ih =>
    obtain ⟨j, rest, ks'', -, htext, rfl, hrest⟩ := of_open h'
    obtain ⟨rfl, rfl⟩ := placeholder_append_inj htext
    rw [ih hrest]

theorem append {b : Utf16Text} {ls : List ℕ} (h : Placed n text ks) (hb : Placed n b ls) :
    Placed n (text ++ b) (ks ++ ls) := by
  induction h with
  | nil => exact hb
  | unit hu _ ih => exact .unit hu ih
  | code hk _ ih =>
    rw [List.append_assoc]
    exact .code hk ih

variable {w : Utf16Text}

theorem of_units (h : ∀ u ∈ w, u ≠ codeOpen ∧ u ≠ codeClose) : Placed n w [] := by
  induction w with
  | nil => exact .nil
  | cons u w ih =>
    exact .unit (h u List.mem_cons_self) (ih fun v hv => h v (List.mem_cons_of_mem _ hv))

/-- Units of its own may go from the beginning of a text. -/
theorem drop_units (hw : ∀ u ∈ w, u ≠ codeOpen) (h : Placed n (w ++ text) ks) :
    Placed n text ks := by
  induction w with
  | nil => exact h
  | cons u w ih =>
    exact ih (fun v hv => hw v (List.mem_cons_of_mem _ hv))
      (of_cons (hw u List.mem_cons_self) h).2

/-- A unit that can be in no placeholder. -/
def Free (s : ℕ) : Prop := isAsciiDigit s = false ∧ s ≠ codeOpen ∧ s ≠ codeClose

theorem not_mem_placeholder {s k : ℕ} (hs : Free s) : s ∉ placeholder k := by
  rw [placeholder, List.mem_cons, List.mem_append, List.mem_singleton]
  rintro (h | h | h)
  · exact hs.2.1 h
  · exact Bool.false_ne_true (hs.1.symm.trans (isDigit_of_mem_decimalUnits h))
  · exact hs.2.2 h

/-- A text is cut at such a unit. -/
theorem cut {a b : Utf16Text} {s : ℕ} (hs : Free s) (h : Placed n (a ++ s :: b) ks) :
    ∃ ks₁ ks₂, Placed n a ks₁ ∧ Placed n b ks₂ := by
  generalize htext : a ++ s :: b = text at h
  induction h generalizing a with
  | nil => exact absurd htext (by simp)
  | @unit u text ks hu h ih =>
    cases a with
    | nil =>
      obtain ⟨rfl, rfl⟩ := List.cons.inj htext
      exact ⟨[], ks, .nil, h⟩
    | cons v a =>
      obtain ⟨rfl, hrest⟩ := List.cons.inj htext
      obtain ⟨ks₁, ks₂, ha, hb⟩ := ih hrest
      exact ⟨ks₁, ks₂, .unit hu ha, hb⟩
  | @code k text ks hk h ih =>
    rcases List.append_eq_append_iff.1 htext with ⟨c, hplaceholder, hc⟩ | ⟨c, ha, hc⟩
    · cases c with
      | nil =>
        rw [List.append_nil] at hplaceholder
        rw [List.nil_append] at hc
        obtain ⟨ks₁, ks₂, ha, hb⟩ := ih (a := []) hc
        refine ⟨k :: ks₁, ks₂, ?_, hb⟩
        rw [← hplaceholder, ← List.append_nil (placeholder k)]
        exact .code hk ha
      | cons v c =>
        obtain ⟨rfl, -⟩ := List.cons.inj hc
        refine absurd ?_ (not_mem_placeholder (k := k) hs)
        rw [hplaceholder]
        exact List.mem_append_right _ List.mem_cons_self
    · obtain ⟨ks₁, ks₂, hc', hb⟩ := ih hc.symm
      rw [ha]
      exact ⟨k :: ks₁, ks₂, .code hk hc', hb⟩

theorem ks_eq_nil (hw : codeOpen ∉ w) (h : Placed n w ks) : ks = [] := by
  induction h with
  | nil => rfl
  | unit _ _ ih => exact ih fun hmem => hw (List.mem_cons_of_mem _ hmem)
  | code => exact absurd (List.mem_append_left _ List.mem_cons_self) hw

theorem not_mem_close (h : Placed n w ks) (hw : codeOpen ∉ w) : codeClose ∉ w := by
  induction h with
  | nil => exact List.not_mem_nil
  | unit hu _ ih =>
    intro hmem
    rcases List.mem_cons.1 hmem with hclose | hmem
    · exact hu.2 hclose.symm
    · exact ih (fun hopen => hw (List.mem_cons_of_mem _ hopen)) hmem
  | code => exact absurd (List.mem_append_left _ List.mem_cons_self) hw

end Placed

variable {text : Utf16Text}

/-- The text has placeholders and no other controls. -/
def HasPlaces (n : ℕ) (text : Utf16Text) : Prop := ∃ ks, Placed n text ks

/-- The text has the placeholder of `k`. -/
def HasPlace (n k : ℕ) (text : Utf16Text) : Prop := ∃ ks, Placed n text ks ∧ k ∈ ks

theorem free_of_isMark {s : ℕ} (h : isMark s = true) : Placed.Free s := by
  simp only [isMark, isAsciiAlphanumeric, Bool.and_eq_true, Bool.not_eq_true', Bool.or_eq_false_iff,
    decide_eq_true_eq, List.mem_cons, List.not_mem_nil, or_false, not_or] at h
  exact ⟨h.1.2, h.2.2.2.2.2.1, h.2.2.2.2.2.2⟩

/-- **Texts with placeholders can be cut and put together.** -/
theorem carries_placed (n k : ℕ) : Carries (HasPlaces n) (HasPlace n k) where
  append := fun ⟨_, ha⟩ ⟨_, hb⟩ => ⟨_, ha.append hb⟩
  plain h := ⟨[], .of_units fun u hu => by
    have hplain := h u hu
    simp only [isPlain, decide_eq_true_eq, List.mem_cons, List.not_mem_nil, or_false,
      not_or] at hplain
    exact ⟨hplain.2.2.1, hplain.2.2.2⟩⟩
  cut hs := fun ⟨_, h⟩ =>
    have ⟨_, _, ha, hb⟩ := h.cut (free_of_isMark hs)
    ⟨⟨_, ha⟩, ⟨_, hb⟩⟩
  entity hw := ⟨[], .of_units ((by decide : ∀ w ∈ entities, ∀ u ∈ w,
    u ≠ codeOpen ∧ u ≠ codeClose) _ hw)⟩
  cutEntity hw := fun ⟨_, h⟩ => by
    have hamp : ∀ w ∈ entities, ∃ v, w = 0x26 :: v ∧ ∀ u ∈ v, u ≠ codeOpen := by
      intro w hw
      simp only [entities, List.mem_cons, List.not_mem_nil, or_false] at hw
      rcases hw with rfl | rfl | rfl
      · exact ⟨utf16 "amp;", rfl, by decide⟩
      · exact ⟨utf16 "lt;", rfl, by decide⟩
      · exact ⟨utf16 "gt;", rfl, by decide⟩
    obtain ⟨v, rfl, hv⟩ := hamp _ hw
    obtain ⟨_, _, ha, hb⟩ := h.cut (s := 0x26) (by unfold Placed.Free; decide)
    exact ⟨⟨_, ha⟩, ⟨_, hb.drop_units hv⟩⟩
  target _ := fun ⟨_, h⟩ => ⟨_, .unit (by decide) h⟩
  has_append := fun ⟨ks, ha⟩ ⟨ls, hb⟩ => by
    constructor
    · rintro ⟨_, h, hk⟩
      rw [h.unique (ha.append hb), List.mem_append] at hk
      exact hk.imp (fun hk => ⟨ks, ha, hk⟩) fun hk => ⟨ls, hb, hk⟩
    · rintro (⟨_, h, hk⟩ | ⟨_, h, hk⟩)
      · exact ⟨_, h.append hb, List.mem_append_left _ hk⟩
      · exact ⟨_, ha.append h, List.mem_append_right _ hk⟩
  not_has hw := fun ⟨_, h, hk⟩ => absurd hk (h.ks_eq_nil hw ▸ List.not_mem_nil)
  has_target := fun ⟨_, h, hk⟩ => ⟨_, .unit (by decide) h, hk⟩

/-! ### Putting code aside -/

/-- The four control characters. -/
def controls : List ℕ := [bold, italic, codeOpen, codeClose]

/-- Escaping changes no control. -/
theorem mem_escapeSlackText (hu : u ∈ controls) :
    u ∈ escapeSlackText text ↔ u ∈ text := by
  have hnot : ∀ w ∈ [0x26, 0x3c, 0x3e] :: entities, u ∉ w := by
    revert u
    decide
  have hunit : ∀ v, u ∈ slackUnit v ↔ u = v := by
    intro v
    have hsmall := hnot _ List.mem_cons_self
    unfold slackUnit
    split_ifs with hamp hlt hgt
    · exact iff_of_false (hnot _ (by decide)) fun h => hsmall (by rw [h, hamp]; decide)
    · exact iff_of_false (hnot _ (by decide)) fun h => hsmall (by rw [h, hlt]; decide)
    · exact iff_of_false (hnot _ (by decide)) fun h => hsmall (by rw [h, hgt]; decide)
    · exact List.mem_singleton
  rw [escapeSlackText_eq, List.mem_flatMap]
  constructor
  · rintro ⟨v, hv, huv⟩
    exact (hunit v).1 huv ▸ hv
  · exact fun h => ⟨u, h, (hunit u).2 rfl⟩

/-- Escaping keeps the placeholders. -/
theorem Placed.escape {n : ℕ} {ks : List ℕ} (h : Placed n text ks) :
    Placed n (escapeSlackText text) ks := by
  rw [escapeSlackText_eq]
  induction h with
  | nil => exact .nil
  | @unit u text ks hu _ ih =>
    have hword : Placed n (slackUnit u) [] := by
      refine .of_units fun v hv => ?_
      unfold slackUnit at hv
      have hentities : ∀ w ∈ entities, ∀ v ∈ w, v ≠ codeOpen ∧ v ≠ codeClose := by decide
      split_ifs at hv
      · exact hentities _ (by decide) v hv
      · exact hentities _ (by decide) v hv
      · exact hentities _ (by decide) v hv
      · exact (List.mem_singleton.1 hv) ▸ hu
    exact hword.append ih
  | @code k text ks hk _ ih =>
    have hsame : (placeholder k).flatMap slackUnit = placeholder k := by
      have hunit : ∀ v ∈ placeholder k, slackUnit v = [v] := by
        intro v hv
        have hne : ∀ s, Placed.Free s → v ≠ s := fun s hs heq =>
          Placed.not_mem_placeholder hs (heq ▸ hv)
        unfold slackUnit
        rw [if_neg (hne 0x26 (by unfold Placed.Free; decide)),
          if_neg (hne 0x3c (by unfold Placed.Free; decide)),
          if_neg (hne 0x3e (by unfold Placed.Free; decide))]
      rw [List.flatMap_congr hunit]
      exact List.flatMap_singleton' _
    rw [List.flatMap_append, hsame]
    exact .code hk ih

/-- A match of code is a word between two marks, as far as the controls in it are concerned. -/
def CodeWord (w : Utf16Text) : Prop :=
  ∃ body, w = 0x60 :: (body ++ [0x60])

/-- **Putting code aside**: each match leaves its placeholder, and the other placeholders stay if
they stand in no match. -/
theorem placed_stashMatches {n : ℕ} (value : Match → Utf16Text) {r : Regex}
    (hword : ∀ before w after c, Matches id r before w after [] c → CodeWord w)
    {i : ℕ} (hchain : MatchChain id r text i ms) :
    ∀ {store : List Utf16Text} {ks : List ℕ}, store.length + ms.length ≤ n →
      Placed n (text.drop i) ks → ∃ ks', Placed n (stashMatches text value i ms store).1 ks' ∧
        (∀ k, store.length ≤ k → k < store.length + ms.length → k ∈ ks') ∧
        ((∀ m ∈ ms, codeOpen ∉ sliceUnits text m.start m.stop) → ∀ k ∈ ks, k ∈ ks') := by
  induction hchain with
  | nil _ _ =>
    intro store ks _ h
    exact ⟨ks, h, fun k hle hlt => absurd hle (Nat.not_le.2 hlt), fun _ k hk => hk⟩
  | @cons i m ms hi hstart hstop hmatch _ hrest ih =>
    intro store ks hlen h
    rw [List.length_cons] at hlen
    obtain ⟨body, hw⟩ := hword _ _ _ _ hmatch
    rw [drop_eq_slice_append text hi, drop_eq_slice_append text hstart] at h
    have hmark : isMark 0x60 = true := by decide
    have hP := carries_placed n 0
    have hcut : IsCut [0x60] := .inl (by decide)
    have hshape : sliceUnits text m.start m.stop = [0x60] ++ (body ++ [0x60]) := hw
    rw [hshape] at h
    obtain ⟨⟨ks₁, hslice⟩, ⟨kb, hbody⟩, ⟨ks₂, hafter⟩, -⟩ := hP.cuts_between hcut hcut ⟨ks, h⟩
    have hroom : (store ++ [value m]).length + ms.length ≤ n := by
      rw [List.length_append, List.length_singleton]
      omega
    obtain ⟨ks', hout, hnew, hold⟩ := ih hroom hafter
    rw [List.length_append, List.length_singleton] at hnew
    refine ⟨ks₁ ++ store.length :: ks', hslice.append (.code (by omega) hout),
      fun k hle hlt => ?_, fun hapart k hk => ?_⟩
    · rw [List.length_cons] at hlt
      rw [List.mem_append, List.mem_cons]
      by_cases heq : k = store.length
      · exact .inr (.inl heq)
      · exact .inr (.inr (hnew k (by omega) (by omega)))
    · have hplain : Placed n ([0x60] ++ (body ++ [0x60])) [] := by
        have hall : Placed n ([0x60] ++ (body ++ [0x60])) ([] ++ (kb ++ [])) :=
          (Placed.of_units (by decide)).append (hbody.append (.of_units (by decide)))
        rwa [hall.ks_eq_nil (hshape ▸ hapart m List.mem_cons_self)] at hall
      have hks : ks = ks₁ ++ ([] ++ ks₂) := h.unique (hslice.append (hplain.append hafter))
      rw [hks, List.nil_append, List.mem_append] at hk
      rw [List.mem_append, List.mem_cons]
      rcases hk with hk | hk
      · exact .inl hk
      · exact .inr (.inr (hold (fun m' hm' => hapart m' (List.mem_cons_of_mem _ hm')) k hk))

/-! ### Putting code back -/

/-- What code put back into a text has: its only controls are those of the code, and all the code
whose placeholders the text has. -/
structure Refilled (code : List Utf16Text) (ks : List ℕ) (out : Utf16Text) : Prop where
  controls : ∀ u ∈ out, u = codeOpen ∨ u = codeClose → ∃ k ∈ ks, ∃ c ∈ code[k]?, u ∈ c
  occurs : ∀ k ∈ ks, ∀ c ∈ code[k]?, c <:+: out

variable {codes : List Utf16Text} {ks : List ℕ} {out : Utf16Text}

theorem Refilled.unit (hu : u ≠ codeOpen ∧ u ≠ codeClose) (h : Refilled codes ks out) :
    Refilled codes ks (u :: out) where
  controls v hv hcontrol := by
    rcases List.mem_cons.1 hv with rfl | hv
    · exact absurd hcontrol (by tauto)
    · exact h.controls v hv hcontrol
  occurs k hk c hc := (h.occurs k hk c hc).trans (List.suffix_cons u out).isInfix

theorem Refilled.code {k : ℕ} (h : Refilled codes ks out) :
    Refilled codes (k :: ks) ((codes[k]?).getD [] ++ out) where
  controls v hv hcontrol := by
    rcases List.mem_append.1 hv with hv | hv
    · cases hget : codes[k]? with
      | none =>
        rw [hget] at hv
        exact absurd hv List.not_mem_nil
      | some c =>
        rw [hget] at hv
        exact ⟨k, List.mem_cons_self, c, hget, hv⟩
    · obtain ⟨j, hj, hc⟩ := h.controls v hv hcontrol
      exact ⟨j, List.mem_cons_of_mem _ hj, hc⟩
  occurs j hj c hc := by
    rcases List.mem_cons.1 hj with rfl | hj
    · rw [hc]
      exact (List.prefix_append _ _).isInfix
    · exact (h.occurs j hj c hc).trans (List.suffix_append _ _).isInfix

/-- What it finds is a placeholder. -/
theorem placeholder_of_matches (h : Matches id placeholderPattern before w after [] c) :
    ∃ digits, w = codeOpen :: (digits ++ [codeClose]) ∧
      (∀ u ∈ digits, isAsciiDigit u = true) ∧ c.lookup 1 = some digits := by
  rw [placeholderPattern_eq] at h
  obtain ⟨w₁, w₂, rfl, hopen, hgroup⟩ := matches_literalThen h
  obtain ⟨digits, rfl, hlookup, _, _, e, _, rfl, hdigits, rfl, -⟩ :=
    matches_group_literal zeroWidth_empty hgroup
  obtain ⟨-, -, hunits, -⟩ := matches_iter_units hdigits
  rw [List.map_id, List.map_id] at hopen
  refine ⟨_, by rw [hopen]; rfl, fun u hu => ?_, hlookup⟩
  rw [List.append_nil] at hu
  exact all_of_has (by decide) rfl (hunits u hu)

theorem unitAt_drop {rest : Utf16Text} {i : ℕ} (h : text.drop i = rest) {j : ℕ}
    (hj : j < rest.length) : i + j < text.length ∧ unitAt text (i + j) = unitAt rest j := by
  rw [← h, List.length_drop] at hj
  refine ⟨by omega, ?_⟩
  simp only [← h, unitAt, List.getD_eq_getElem?_getD, List.getElem?_drop]

/-- The search finds a placeholder where one stands. -/
theorem runs_placeholder {rest : Utf16Text} {i k : ℕ}
    (h : text.drop i = placeholder k ++ rest) :
    ∃ t ∈ (runs id text placeholderPattern ⟨i, []⟩).head?, t.pos ≠ i := by
  have hlength : (placeholder k ++ rest).length = (decimalUnits k).length + 2 + rest.length := by
    rw [placeholder, List.length_append, List.length_cons, List.length_append,
      List.length_singleton]
  have hunit : ∀ j, j < (decimalUnits k).length + 2 → i + j < text.length ∧
      unitAt text (i + j) = unitAt (placeholder k ++ rest) j := fun j hj =>
    unitAt_drop h (by rw [hlength]; omega)
  have hopen := hunit 0 (by omega)
  have hclose := hunit ((decimalUnits k).length + 1) (by omega)
  have hdigits : ∀ j < (decimalUnits k).length, i + 1 + j < text.length ∧
      UnitClass.digit.has id (unitAt text (i + 1 + j)) = true := by
    intro j hj
    obtain ⟨hlt, heq⟩ := hunit (j + 1) (by omega)
    rw [Nat.add_assoc, Nat.add_comm 1 j]
    refine ⟨hlt, ?_⟩
    have hdigit : unitAt (placeholder k ++ rest) (j + 1) = (decimalUnits k)[j] := by
      change unitAt ((decimalUnits k ++ [codeClose]) ++ rest) j = _
      rw [List.append_assoc, unitAt_append_left hj, unitAt_eq_getElem hj]
    have hbounds := isDigit_of_mem_decimalUnits (List.getElem_mem hj)
    rw [heq, hdigit, has_id]
    simpa [UnitClass.digit, isAsciiDigit] using hbounds
  have hlast : unitAt (placeholder k ++ rest) ((decimalUnits k).length + 1) = codeClose := by
    change unitAt ((decimalUnits k ++ [codeClose]) ++ rest) (decimalUnits k).length = _
    rw [List.append_assoc, unitAt_append_right (Nat.le_refl _), Nat.sub_self]
    rfl
  have hpos : 1 ≤ (decimalUnits k).length := List.length_pos_iff.2 (decimalUnits_ne_nil k)
  -- the state behind the digits, and the one behind the placeholder
  set stop := i + 1 + (decimalUnits k).length with hstop
  have hmem : (⟨stop + 1, [(1, i + 1, stop)]⟩ : State) ∈
      runs id text placeholderPattern ⟨i, []⟩ := by
    have hturns : (⟨stop, []⟩ : State) ∈
        runs id text (iter (units .digit) 1 none true) ⟨i + 1, []⟩ :=
      mem_turns_units (s := ⟨i + 1, []⟩) hdigits hpos (by omega)
    have hgroup : (⟨stop, [(1, i + 1, stop)]⟩ : State) ∈ runs id text
        (group 1 (.seq (iter (units .digit) 1 none true) empty)) ⟨i + 1, []⟩ :=
      List.mem_map.2 ⟨⟨stop, []⟩, List.mem_flatMap.2 ⟨_, hturns, List.mem_cons_self⟩, rfl⟩
    have hend : unitAt text stop = codeClose := by
      rw [hstop, Nat.add_assoc, Nat.add_comm 1, hclose.2, hlast]
    rw [placeholderPattern_eq]
    refine List.mem_flatMap.2 ⟨_, mem_runs_single hopen.1 hopen.2, List.mem_flatMap.2 ⟨_, hgroup,
      List.mem_flatMap.2 ⟨_, mem_runs_single (by omega) hend, List.mem_cons_self⟩⟩⟩
  obtain ⟨t, ht⟩ := Option.isSome_iff_exists.1 (List.isSome_head?.2 (List.ne_nil_of_mem hmem))
  refine ⟨t, ht, fun hti => ?_⟩
  obtain ⟨-, -, hmatch⟩ := found_of_mem_runs (Nat.le_of_lt hopen.1) (List.mem_of_head? ht)
  obtain ⟨digits, hw, -, -⟩ := placeholder_of_matches hmatch
  rw [hti, sliceUnits_self] at hw
  cases hw

/-- **Putting code back**: every placeholder becomes its code. -/
theorem refilled_restored {n : ℕ} {code : List Utf16Text} {ks : List ℕ}
    (h : Placed n text ks) : Refilled code ks (restored code text) := by
  set f : Match → Utf16Text := fun m => (code[numberOfDigits (groupOf m text 1)]?).getD [] with hf
  -- by the text from `i` on, with the matches that the search goes on to find
  have hmain : ∀ rest ks, Placed n rest ks → ∀ i ms, text.drop i = rest →
      MatchChain id placeholderPattern text i ms →
      Refilled code ks (replaceMatchesWith text f i ms) := by
    intro rest ks hrest
    induction hrest with
    | nil =>
      intro i ms hdrop hchain
      cases hchain with
      | nil _ _ =>
        rw [replaceMatchesWith, hdrop]
        exact ⟨fun _ hu => absurd hu List.not_mem_nil, fun _ hk => absurd hk List.not_mem_nil⟩
      | cons hi hstart hstop hmatch _ _ =>
        obtain ⟨digits, hw, -, -⟩ := placeholder_of_matches hmatch
        have hlength := congrArg List.length hw
        rw [length_sliceUnits hstop, List.length_cons] at hlength
        have hend := List.drop_eq_nil_iff.1 hdrop
        omega
    | @unit u rest ks hu _ ih =>
      intro i ms hdrop hchain
      have hi' : i < text.length := by
        refine Nat.lt_of_not_le fun hle => ?_
        rw [List.drop_eq_nil_of_le hle] at hdrop
        cases hdrop
      have hnext : text.drop (i + 1) = rest := by
        rw [← List.drop_drop, hdrop]
        rfl
      have hfirst : unitAt text i = u := by
        have hunit := (unitAt_drop hdrop (j := 0) (by simp)).2
        exact hunit
      cases hchain with
      | nil _ hnone =>
        have hrest := ih (i + 1) [] hnext (.nil hi' fun j hj => hnone j (by omega))
        rw [replaceMatchesWith, hdrop, ← hnext]
        exact hrest.unit hu
      | @cons _ m ms hi hstart hstop hmatch hnone hrest =>
        have hlt : i + 1 ≤ m.start := by
          refine Nat.lt_of_le_of_ne hi fun heq => ?_
          obtain ⟨digits, hw, -, -⟩ := placeholder_of_matches hmatch
          rw [heq, drop_eq_slice_append text hstart, hw] at hdrop
          exact hu.1 (List.cons.inj hdrop).1.symm
        have hout := ih (i + 1) (m :: ms) hnext (.cons hlt hstart hstop hmatch
          (fun j hj => hnone j (by omega)) hrest)
        rw [replaceMatchesWith, sliceUnits_append text (Nat.le_succ i) hlt, sliceUnits_one hi',
          hfirst]
        exact hout.unit hu
    | @code k rest ks hk _ ih =>
      intro i ms hdrop hchain
      obtain ⟨t, ht, hpos⟩ := runs_placeholder hdrop
      cases hchain with
      | nil hi hnone => exact absurd (hnone i (Nat.le_refl i) hi t ht) hpos
      | @cons _ m ms hi hstart hstop hmatch hnone hrest =>
        obtain rfl : i = m.start := by
          refine Nat.le_antisymm hi (Nat.le_of_not_lt fun hlt => ?_)
          exact absurd (hnone i (Nat.le_refl i) hlt t ht) hpos
        obtain ⟨digits, hw, hdigits, hlookup⟩ := placeholder_of_matches hmatch
        rw [drop_eq_slice_append text hstart, hw] at hdrop
        have hrestText : digits ++ codeClose :: text.drop m.stop =
            decimalUnits k ++ codeClose :: rest := by
          have htail : (digits ++ [codeClose]) ++ text.drop m.stop =
              (decimalUnits k ++ [codeClose]) ++ rest := (List.cons.inj hdrop).2
          rwa [List.append_assoc, List.append_assoc] at htail
        obtain ⟨hsame, hdropStop⟩ := digits_append_inj hdigits
          (fun _ => isDigit_of_mem_decimalUnits) hrestText
        have hnumber : numberOfDigits (groupOf m text 1) = k := by
          rw [groupOf_eq hlookup, hsame, numberOfDigits_decimalUnits]
        rw [replaceMatchesWith, sliceUnits_self, List.nil_append, hf]
        simp only [hnumber]
        exact (ih m.stop ms hdropStop hrest).code
  exact hmain text ks h 0 _ rfl (matchChain_matchAll _ _)

/-! ### The law -/

/-- The code of the fenced blocks and of the spans that are recognised. -/
def contents (markdown : Utf16Text) : List Utf16Text :=
  (matchAll id fencePattern (unixLines markdown)).map (fenceContent (unixLines markdown)) ++
    (matchAll id spanPattern (withoutFences markdown).1).map fun m =>
      groupOf m (withoutFences markdown).1 1

/-- **The law**: no control is posted, and all code is, escaped. -/
def CodeSurvives (markdown : Utf16Text) : Prop :=
  (∀ u ∈ controls, u ∉ markdownToMrkdwn markdown) ∧
    ∀ content ∈ contents markdown, escapeSlackText content <:+: markdownToMrkdwn markdown

/-- **The conditions**: no placeholder stands in what an image or a link leaves out, -/
def KeepsAllCode (markdown : Utf16Text) : Prop :=
  (∀ m ∈ matchAll id imagePattern (autolinked (blocks markdown)),
      KeepsCode (autolinked (blocks markdown)) m) ∧
    ∀ m ∈ matchAll id linkPattern (imaged (autolinked (blocks markdown))),
      KeepsCode (imaged (autolinked (blocks markdown))) m

/-- and none in a span. -/
def SpansApart (markdown : Utf16Text) : Prop :=
  ∀ m ∈ matchAll id spanPattern (withoutFences markdown).1,
    codeOpen ∉ groupOf m (withoutFences markdown).1 1

theorem fencePattern_eq : fencePattern = literalThen (utf16 "```") (.seq
    (iter (units ⟨[(0x0a, 0x0a), (0x60, 0x60)], true⟩) 0 none true) (.seq
      (iter (units ⟨[(0x0a, 0x0a)], false⟩) 0 (some 1) true) (.seq (group 1 (.seq
        (iter (units ⟨UnitClass.blankRanges ++ UnitClass.nonBlankRanges, false⟩) 0 none false)
          empty)) (literalThen (utf16 "```") empty)))) := by
  decide +kernel

theorem spanPattern_eq : spanPattern = literalThen (utf16 "`") (.seq (group 1 (.seq
    (iter (units ⟨[(0x60, 0x60), (0x0a, 0x0a)], true⟩) 1 none true) empty))
      (literalThen (utf16 "`") empty)) := by
  decide +kernel

theorem codeWord_fence (h : Matches id fencePattern before w after [] c) : CodeWord w := by
  rw [fencePattern_eq] at h
  obtain ⟨w₁, _, rfl, hopen, language, _, _, rfl, -, newline, _, _, rfl, -, hgroup⟩ :=
    matches_literalThen h
  obtain ⟨body, rfl, -, -⟩ := matches_group_literal zeroWidth_empty hgroup
  rw [List.map_id, List.map_id] at hopen
  refine ⟨[0x60, 0x60] ++ (language ++ (newline ++ (body ++ [0x60, 0x60]))), ?_⟩
  rw [hopen]
  simp [utf16, charUtf16]

theorem span_of_matches (h : Matches id spanPattern before w after [] c) :
    ∃ body, w = 0x60 :: (body ++ [0x60]) ∧ c.lookup 1 = some body := by
  rw [spanPattern_eq] at h
  obtain ⟨w₁, _, rfl, hopen, hgroup⟩ := matches_literalThen h
  obtain ⟨body, rfl, hbody, -⟩ := matches_group_literal zeroWidth_empty hgroup
  rw [List.map_id, List.map_id] at hopen
  exact ⟨body, by rw [hopen]; rfl, hbody⟩

/-- The text around a match. -/
theorem eq_around_match (text : Utf16Text) {m : Match} (hstart : m.start ≤ m.stop) :
    text = text.take m.start ++ (sliceUnits text m.start m.stop ++ text.drop m.stop) := by
  rw [← drop_eq_slice_append text hstart, List.take_append_drop]

theorem mem_replaceUnit {v : ℕ} {word : Utf16Text} :
    u ∈ replaceUnit v word text ↔ (u ∈ text ∧ u ≠ v) ∨ (v ∈ text ∧ u ∈ word) := by
  rw [replaceUnit, List.mem_flatMap]
  constructor
  · rintro ⟨x, hx, hu⟩
    split_ifs at hu with hxv
    · exact .inr ⟨hxv ▸ hx, hu⟩
    · obtain rfl := List.mem_singleton.1 hu
      exact .inl ⟨hx, hxv⟩
  · rintro (⟨hu, hne⟩ | ⟨hv, hu⟩)
    · exact ⟨u, hu, by rw [if_neg hne]; exact List.mem_cons_self⟩
    · exact ⟨v, hv, by rwa [if_pos rfl]⟩

theorem mem_marked (hu : u ∈ controls) :
    u ∈ marked text ↔ u ∈ text ∧ (u = codeOpen ∨ u = codeClose) := by
  rw [marked, mem_replaceUnit, mem_replaceUnit, mem_replaceUnit]
  simp only [controls, List.mem_cons, List.not_mem_nil, or_false] at hu
  rcases hu with rfl | rfl | rfl | rfl <;> simp [bold, italic, codeOpen, codeClose]

/-- What has no markers is posted as it is. -/
theorem infix_marked {word : Utf16Text} (hbold : bold ∉ word) (hitalic : italic ∉ word)
    (h : word <:+: text) : word <:+: marked text := by
  obtain ⟨before, after, rfl⟩ := h
  refine ⟨marked before, marked after, ?_⟩
  have hword : marked word = word := by
    rw [marked, replaceUnit_of_not_mem hbold, replaceUnit_of_not_mem hitalic]
  have happend : ∀ a b, marked (a ++ b) = marked a ++ marked b := fun a b => by
    rw [marked, replaceUnit_append, replaceUnit_append]
    rfl
  rw [happend, happend, hword]

/-- The units of a text whose code was put aside. -/
theorem mem_stashMatches {value : Match → Utf16Text} : ∀ {i store}, u ∈
    (stashMatches text value i ms store).1 → u ∈ text ∨ ∃ k, u ∈ placeholder k := by
  induction ms with
  | nil => exact fun h => .inl (List.mem_of_mem_drop h)
  | cons m ms ih =>
    intro i store h
    rcases List.mem_append.1 h with h | h
    · exact .inl (List.mem_of_mem_drop (List.mem_of_mem_take h))
    · rcases List.mem_append.1 h with h | h
      · exact .inr ⟨_, h⟩
      · exact ih h

theorem mem_of_mem_groupOf {m : Match} {n : ℕ} (h : u ∈ groupOf m text n) :
    u ∈ text := by
  unfold groupOf Match.captured at h
  cases hlookup : m.captures.lookup n with
  | none =>
    rw [hlookup] at h
    exact absurd h List.not_mem_nil
  | some c =>
    rw [hlookup] at h
    exact List.mem_of_mem_drop (List.mem_of_mem_take h)

section

variable {markdown : Utf16Text}

/-- The message has none of the control characters. -/
def Plain (markdown : Utf16Text) : Prop := ∀ u ∈ controls, u ∉ markdown

variable {u : ℕ}

theorem not_mem_unixLines (hplain : Plain markdown) (hu : u ∈ controls) :
    u ∉ unixLines markdown := by
  intro h
  rw [unixLines, replaceAll_eq] at h
  rcases mem_replaceAllWith h with h | ⟨_, h⟩
  · exact hplain u hu h
  · rw [List.mem_singleton.1 h] at hu
    exact absurd hu (by decide)

theorem not_mem_fenceContent (hplain : Plain markdown) (hu : u ∈ controls) (m : Match) :
    u ∉ fenceContent (unixLines markdown) m := by
  intro h
  rw [fenceContent, replaceAll_eq] at h
  rcases mem_replaceAllWith h with h | ⟨_, h⟩
  · exact not_mem_unixLines hplain hu (mem_of_mem_groupOf h)
  · exact absurd h List.not_mem_nil

theorem not_mem_withoutFences (hplain : Plain markdown) (hu : u = bold ∨ u = italic) :
    u ∉ (withoutFences markdown).1 := by
  intro h
  have hmem : u ∈ controls ∧ Placed.Free u := by
    rcases hu with rfl | rfl <;> exact ⟨by decide, by unfold Placed.Free; decide⟩
  rcases mem_stashMatches h with h | ⟨k, h⟩
  · exact not_mem_unixLines hplain hmem.1 h
  · exact Placed.not_mem_placeholder hmem.2 h

/-- How many blocks and spans are put aside. -/
def codeCount (markdown : Utf16Text) : ℕ := (stashed markdown).2.length

theorem codeCount_eq : codeCount markdown = (withoutFences markdown).2.length +
    (matchAll id spanPattern (withoutFences markdown).1).length := by
  rw [codeCount, stashed, stashMatches_snd, List.length_append, List.length_map]

theorem placed_withoutFences (hplain : Plain markdown) :
    ∃ ks, Placed (codeCount markdown) (withoutFences markdown).1 ks ∧
      ∀ k < (withoutFences markdown).2.length, k ∈ ks := by
  have hunits : Placed (codeCount markdown) ((unixLines markdown).drop 0) [] :=
    .of_units fun u hu =>
      ⟨fun h => not_mem_unixLines hplain (by rw [h]; decide) hu,
        fun h => not_mem_unixLines hplain (by rw [h]; decide) hu⟩
  have hlength : (withoutFences markdown).2.length =
      (matchAll id fencePattern (unixLines markdown)).length := by
    rw [withoutFences, stashMatches_snd, List.nil_append, List.length_map]
  have hroom : ([] : List Utf16Text).length +
      (matchAll id fencePattern (unixLines markdown)).length ≤ codeCount markdown := by
    rw [codeCount_eq, hlength, List.length_nil, Nat.zero_add]
    exact Nat.le_add_right _ _
  obtain ⟨ks, h, hnew, -⟩ := placed_stashMatches (fenceValue (unixLines markdown))
    (fun _ _ _ _ => codeWord_fence) (matchChain_matchAll fencePattern (unixLines markdown)) hroom
    hunits
  refine ⟨ks, h, fun k hk => hnew k (Nat.zero_le k) ?_⟩
  rwa [List.length_nil, Nat.zero_add, ← hlength]

/-- **The placeholders of spans are all there, and those of blocks if no span has one.** -/
theorem placed_stashed (hplain : Plain markdown) :
    ∃ ks, Placed (codeCount markdown) (stashed markdown).1 ks ∧
    (∀ k, (withoutFences markdown).2.length ≤ k → k < codeCount markdown → k ∈ ks) ∧
    (SpansApart markdown → ∀ k < codeCount markdown, k ∈ ks) := by
  obtain ⟨ks, h, hfences⟩ := placed_withoutFences hplain
  have hroom : (withoutFences markdown).2.length +
      (matchAll id spanPattern (withoutFences markdown).1).length ≤ codeCount markdown :=
    codeCount_eq.ge
  obtain ⟨ks', h', hnew, hold⟩ := placed_stashMatches
    (spanValue (withoutFences markdown).1) (fun _ _ _ _ hm =>
      have ⟨body, hw, _⟩ := span_of_matches hm
      ⟨body, hw⟩) (matchChain_matchAll spanPattern (withoutFences markdown).1) hroom h
  rw [← codeCount_eq] at hnew
  refine ⟨ks', h', hnew, fun hapart k hk => ?_⟩
  rcases Nat.lt_or_ge k (withoutFences markdown).2.length with hlt | hge
  · refine hold (fun m hm => ?_) k (hfences k hlt)
    obtain ⟨-, -, hmatch⟩ := (matchChain_matchAll _ _).matches_of_mem hm
    obtain ⟨body, hw, hbody⟩ := span_of_matches hmatch
    have hbodyApart := hapart m hm
    rw [groupOf_eq hbody] at hbodyApart
    rw [hw]
    simp only [List.mem_cons, List.mem_append, List.not_mem_nil, or_false]
    rintro (h | h | h)
    · exact absurd h (by decide)
    · exact hbodyApart h
    · exact absurd h (by decide)
  · exact hnew k hge hk

/-- What is posted before the markers are written, if links keep all code. -/
theorem refilled_message (hplain : Plain markdown) (hkeeps : KeepsAllCode markdown) :
    ∃ ks, Refilled (stashed markdown).2 ks (restored (stashed markdown).2 (rewritten markdown)) ∧
      (∀ k, (withoutFences markdown).2.length ≤ k → k < codeCount markdown → k ∈ ks) ∧
      (SpansApart markdown → ∀ k < codeCount markdown, k ∈ ks) := by
  obtain ⟨ks, h, hspans, hall⟩ := placed_stashed hplain
  -- the numbers of the rewritten text, which has those of the stashed one
  have hcarried : ∀ k, HasPlaces (codeCount markdown) (rewritten markdown) ∧
      (HasPlace (codeCount markdown) k (escapeSlackText (stashed markdown).1) →
        HasPlace (codeCount markdown) k (rewritten markdown)) := fun k =>
    (carries_placed _ k).rewritten markdown ⟨ks, h.escape⟩ (.inl hkeeps)
  obtain ⟨ks', h'⟩ := (hcarried 0).1
  have hsubset : ∀ k ∈ ks, k ∈ ks' := by
    intro k hk
    obtain ⟨ks'', h'', hk''⟩ := (hcarried k).2 ⟨ks, h.escape, hk⟩
    exact h'.unique h'' ▸ hk''
  exact ⟨ks', refilled_restored h', fun k hle hlt => hsubset k (hspans k hle hlt),
    fun hapart k hk => hsubset k (hall hapart k hk)⟩

/-- What is put aside. -/
theorem stashed_snd : (stashed markdown).2 =
    (matchAll id fencePattern (unixLines markdown)).map (fenceValue (unixLines markdown)) ++
      (matchAll id spanPattern (withoutFences markdown).1).map
        (spanValue (withoutFences markdown).1) := by
  rw [stashed, stashMatches_snd, withoutFences, stashMatches_snd, List.nil_append]

/-- A code as it is put aside: its content, escaped, between marks. -/
def Encloses (code content : Utf16Text) : Prop :=
  ∃ opening closing, code = opening ++ (escapeSlackText content ++ closing) ∧
    (∀ u ∈ controls, u ∉ opening) ∧ ∀ u ∈ controls, u ∉ closing

theorem Encloses.mem_iff {code content : Utf16Text} (h : Encloses code content)
    (hu : u ∈ controls) : u ∈ code ↔ u ∈ content := by
  obtain ⟨opening, closing, rfl, ho, hc⟩ := h
  rw [List.mem_append, List.mem_append, mem_escapeSlackText hu]
  have hopening := ho u hu
  have hclosing := hc u hu
  tauto

theorem encloses_fenceValue (text : Utf16Text) (m : Match) :
    Encloses (fenceValue text m) (fenceContent text m) :=
  ⟨_, _, rfl, by decide, by decide⟩

theorem encloses_spanValue (text : Utf16Text) (m : Match) :
    Encloses (spanValue text m) (groupOf m text 1) :=
  ⟨_, _, rfl, by decide, by decide⟩

/-- Each code that is put aside has a content, -/
theorem exists_content {code : Utf16Text} (h : code ∈ (stashed markdown).2) :
    ∃ content ∈ contents markdown, Encloses code content := by
  rw [stashed_snd, List.mem_append, List.mem_map, List.mem_map] at h
  rcases h with ⟨m, hm, rfl⟩ | ⟨m, hm, rfl⟩
  · exact ⟨_, List.mem_append_left _ (List.mem_map_of_mem hm), encloses_fenceValue _ m⟩
  · exact ⟨_, List.mem_append_right _ (List.mem_map_of_mem hm), encloses_spanValue _ m⟩

/-- and each content is put aside. -/
theorem exists_code {content : Utf16Text} (h : content ∈ contents markdown) :
    ∃ code ∈ (stashed markdown).2, Encloses code content := by
  rw [contents, List.mem_append, List.mem_map, List.mem_map] at h
  rw [stashed_snd]
  rcases h with ⟨m, hm, rfl⟩ | ⟨m, hm, rfl⟩
  · exact ⟨_, List.mem_append_left _ (List.mem_map_of_mem hm), encloses_fenceValue _ m⟩
  · exact ⟨_, List.mem_append_right _ (List.mem_map_of_mem hm), encloses_spanValue _ m⟩

/-- The units of a span. -/
theorem not_mem_span (hplain : Plain markdown) (hapart : SpansApart markdown) {m : Match}
    (hm : m ∈ matchAll id spanPattern (withoutFences markdown).1) :
    ∀ u ∈ controls, u ∉ groupOf m (withoutFences markdown).1 1 := by
  obtain ⟨hstart, -, hmatch⟩ := (matchChain_matchAll _ _).matches_of_mem hm
  obtain ⟨body, hw, hbody⟩ := span_of_matches hmatch
  obtain ⟨ks, hks, -⟩ := placed_withoutFences hplain
  rw [eq_around_match (withoutFences markdown).1 hstart, hw] at hks
  have hcut : IsCut [0x60] := .inl (by decide)
  obtain ⟨-, ⟨kb, hplaced⟩, -, -⟩ :=
    (carries_placed _ 0).cuts_between (o := [0x60]) (c := [0x60]) hcut hcut ⟨ks, hks⟩
  have hopen := hapart m hm
  have hunits := fun u (hu : u = bold ∨ u = italic) => not_mem_withoutFences hplain hu
  have hgroup := groupOf_eq hbody
  rw [hgroup] at hopen ⊢
  intro u hu hmem
  simp only [controls, List.mem_cons, List.not_mem_nil, or_false] at hu
  have hsub : u ∈ (withoutFences markdown).1 := mem_of_mem_groupOf (hgroup ▸ hmem)
  rcases hu with rfl | rfl | rfl | rfl
  · exact hunits _ (.inl rfl) hsub
  · exact hunits _ (.inr rfl) hsub
  · exact hopen hmem
  · exact hplaced.not_mem_close hopen hmem

/-- **Under both conditions code survives.** -/
theorem codeSurvives (hplain : Plain markdown) (hkeeps : KeepsAllCode markdown)
    (hapart : SpansApart markdown) : CodeSurvives markdown := by
  obtain ⟨ks, hrefilled, -, hall⟩ := refilled_message hplain hkeeps
  have hcontent : ∀ content ∈ contents markdown, ∀ u ∈ controls, u ∉ content := by
    intro content hcontent u hu
    rw [contents, List.mem_append, List.mem_map, List.mem_map] at hcontent
    rcases hcontent with ⟨m, hm, rfl⟩ | ⟨m, hm, rfl⟩
    · exact not_mem_fenceContent hplain hu m
    · exact not_mem_span hplain hapart hm u hu
  refine ⟨fun u hu hmem => ?_, fun content hmem => ?_⟩
  · rw [markdownToMrkdwn, mem_marked hu] at hmem
    obtain ⟨k, -, code, hcode, huc⟩ := hrefilled.controls u hmem.1 hmem.2
    obtain ⟨content, hmem', hencloses⟩ := exists_content (List.mem_of_getElem? hcode)
    exact hcontent content hmem' u hu ((hencloses.mem_iff hu).1 huc)
  · obtain ⟨code, hcode, opening, closing, rfl, -, -⟩ := exists_code hmem
    obtain ⟨k, hk, hget⟩ := List.mem_iff_getElem.1 hcode
    have hoccurs := hrefilled.occurs k (hall hapart k hk) _ (List.getElem?_eq_some_iff.2 ⟨hk, hget⟩)
    have hescaped : ∀ u ∈ controls, u ∉ escapeSlackText content := fun u hu h =>
      hcontent content hmem u hu ((mem_escapeSlackText hu).1 h)
    refine infix_marked (hescaped bold (by decide)) (hescaped italic (by decide)) ?_
    exact List.IsInfix.trans ⟨opening, closing, List.append_assoc _ _ _⟩ hoccurs

/-- Where links keep all code, a placeholder that is in a span is posted. -/
theorem spansApart_of_survives (hplain : Plain markdown) (hkeeps : KeepsAllCode markdown)
    (h : CodeSurvives markdown) : SpansApart markdown := by
  intro m hm hopen
  obtain ⟨ks, hrefilled, hspans, -⟩ := refilled_message hplain hkeeps
  obtain ⟨j, hj, hget⟩ := List.mem_iff_getElem.1 hm
  set k := (withoutFences markdown).2.length + j with hk
  have hlt : k < codeCount markdown := by
    rw [codeCount_eq]
    exact Nat.add_lt_add_left hj _
  have hcode : (stashed markdown).2[k]? = some (spanValue (withoutFences markdown).1 m) := by
    have hlength : (withoutFences markdown).2.length =
        ((matchAll id fencePattern (unixLines markdown)).map
          (fenceValue (unixLines markdown))).length := by
      rw [withoutFences, stashMatches_snd, List.nil_append]
    rw [stashed_snd, hk, hlength, List.getElem?_append_right (Nat.le_add_right _ _),
      Nat.add_sub_cancel_left, List.getElem?_map, List.getElem?_eq_getElem hj, hget,
      Option.map_some]
  have hoccurs := hrefilled.occurs k (hspans k (Nat.le_add_right _ _) hlt) _ hcode
  have hmem : codeOpen ∈ spanValue (withoutFences markdown).1 m :=
    ((encloses_spanValue _ m).mem_iff (by decide)).2 hopen
  refine h.1 codeOpen (by decide) ?_
  rw [markdownToMrkdwn, mem_marked (by decide)]
  exact ⟨hoccurs.subset hmem, .inl rfl⟩

/-- **When code survives**: if links keep all code and no span has a block in it; and where links
keep all code, only then. -/
theorem codeSurvives_spec (hplain : Plain markdown) :
    (KeepsAllCode markdown ∧ SpansApart markdown → CodeSurvives markdown) ∧
      (KeepsAllCode markdown → (CodeSurvives markdown ↔ SpansApart markdown)) :=
  ⟨fun ⟨hkeeps, hapart⟩ => codeSurvives hplain hkeeps hapart, fun hkeeps =>
    ⟨spansApart_of_survives hplain hkeeps, codeSurvives hplain hkeeps⟩⟩

end

/-- A fenced block in a span: the placeholder of the block is posted. -/
theorem nested_code_lost : Plain (utf16 "` ```\nx\n``` `") ∧
    ¬ CodeSurvives (utf16 "` ```\nx\n``` `") := by
  refine ⟨by unfold Plain; decide, fun h => h.1 codeOpen (by decide) ?_⟩
  decide +kernel

/-- A span in the label of a link. -/
def spanInLabel : Utf16Text := utf16 "[`a`](https://x.dev)"

theorem codeSurvives_spec_label : Plain spanInLabel ∧ CodeSurvives spanInLabel := by
  have hplain : Plain spanInLabel := by
    unfold Plain
    decide
  refine ⟨hplain, (codeSurvives_spec hplain).1 ⟨?_, ?_⟩⟩
  · unfold KeepsAllCode
    decide +kernel
  · unfold SpansApart
    decide +kernel

end Munin.Conversations.Slack
