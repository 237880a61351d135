import Munin.Conversations.SlackStages

/-!
# No control sequences from messages

Slack reads `<` as the beginning of a link or of a mention, and `&` as the beginning of an entity.
In a converted message each `<` has a target behind it that begins with a scheme, and each `&`
begins an entity.

* **`Safe`** — such texts. They can be cut at marks and put together (`carries_safe`), so that they
  stay safe through all stages.
* **`mrkdwn_safe`** — the law, for every message.
-/

namespace Munin.Conversations.Slack

open Foundations Regex

/-- The text begins with the rest of an entity. -/
def BeginsEntity (text : Utf16Text) : Prop :=
  ∃ rest ∈ [utf16 "amp;", utf16 "lt;", utf16 "gt;"], rest <+: text

/-- **Safe texts**: behind each `<` is a target with a scheme, and behind each `&` the rest of an
entity. -/
structure Safe (text : Utf16Text) : Prop where
  target : ∀ before after, text = before ++ 0x3c :: after → BeginsTarget after
  entity : ∀ before after, text = before ++ 0x26 :: after → BeginsEntity after

theorem safe_nil : Safe [] where
  target before after h := by
    cases before <;> cases h
  entity before after h := by
    cases before <;> cases h

variable {text a b : Utf16Text} {s : ℕ}

theorem safe_cons {u : ℕ} : Safe (u :: text) ↔
    (u = 0x3c → BeginsTarget text) ∧ (u = 0x26 → BeginsEntity text) ∧ Safe text := by
  constructor
  · intro h
    refine ⟨fun hu => h.target [] text (by rw [hu]; rfl),
      fun hu => h.entity [] text (by rw [hu]; rfl),
      fun before after htext => h.target (u :: before) after (by rw [htext]; rfl),
      fun before after htext => h.entity (u :: before) after (by rw [htext]; rfl)⟩
  · rintro ⟨htarget, hentity, hrest⟩
    refine ⟨fun before after h => ?_, fun before after h => ?_⟩
    · cases before with
      | nil =>
        obtain ⟨rfl, rfl⟩ := List.cons.inj h
        exact htarget rfl
      | cons v before => exact hrest.target before after (List.cons.inj h).2
    · cases before with
      | nil =>
        obtain ⟨rfl, rfl⟩ := List.cons.inj h
        exact hentity rfl
      | cons v before => exact hrest.entity before after (List.cons.inj h).2

theorem BeginsEntity.append (h : BeginsEntity text) (rest : Utf16Text) :
    BeginsEntity (text ++ rest) := by
  obtain ⟨word, hword, hbegin⟩ := h
  exact ⟨word, hword, hbegin.trans (List.prefix_append _ _)⟩

theorem Safe.append (ha : Safe a) (hb : Safe b) : Safe (a ++ b) := by
  induction a with
  | nil => exact hb
  | cons u a ih =>
    obtain ⟨htarget, hentity, hrest⟩ := safe_cons.1 ha
    exact safe_cons.2 ⟨fun h => (htarget h).append b, fun h => (hentity h).append b, ih hrest⟩

theorem Safe.right (h : Safe (a ++ b)) : Safe b := by
  induction a with
  | nil => exact h
  | cons u a ih => exact ih (safe_cons.1 h).2.2

/-- What has to stand behind a control unit has no mark in it, and no placeholder. -/
theorem beginsTarget_of_append
    (hs : ∀ scheme ∈ schemes, asciiLower s ∉ scheme) (h : BeginsTarget (a ++ s :: b)) :
    BeginsTarget a := by
  obtain ⟨scheme, hscheme, hlower⟩ := h
  refine ⟨scheme, hscheme, ?_⟩
  rcases Nat.lt_or_ge a.length scheme.length with hlt | hge
  · refine absurd ?_ (hs scheme hscheme)
    rw [← hlower]
    refine List.mem_map_of_mem ?_
    rw [List.take_append, List.take_of_length_le (Nat.le_of_lt hlt)]
    obtain ⟨n, hn⟩ := Nat.exists_eq_add_of_lt hlt
    rw [(by omega : scheme.length - a.length = n + 1), List.take_succ_cons]
    exact List.mem_append_right _ List.mem_cons_self
  · rwa [List.take_append_of_le_length hge] at hlower

theorem beginsEntity_of_append (hs : ∀ word ∈ [utf16 "amp;", utf16 "lt;", utf16 "gt;"], s ∉ word)
    (h : BeginsEntity (a ++ s :: b)) : BeginsEntity a := by
  obtain ⟨word, hword, hbegin⟩ := h
  refine ⟨word, hword, ?_⟩
  rcases Nat.lt_or_ge a.length word.length with hlt | hge
  · refine absurd ?_ (hs word hword)
    rw [List.prefix_iff_eq_take] at hbegin
    rw [hbegin, List.take_append, List.take_of_length_le (Nat.le_of_lt hlt)]
    obtain ⟨n, hn⟩ := Nat.exists_eq_add_of_lt hlt
    rw [(by omega : word.length - a.length = n + 1), List.take_succ_cons]
    exact List.mem_append_right _ List.mem_cons_self
  · exact List.prefix_of_prefix_length_le hbegin (List.prefix_append _ _) hge

/-- A unit that is in no scheme and in no entity. -/
def Apart (s : ℕ) : Prop :=
  (∀ scheme ∈ schemes, asciiLower s ∉ scheme) ∧
    ∀ word ∈ [utf16 "amp;", utf16 "lt;", utf16 "gt;"], s ∉ word

instance (s : ℕ) : Decidable (Apart s) := inferInstanceAs (Decidable (_ ∧ _))

theorem Safe.left (hs : Apart s) (h : Safe (a ++ s :: b)) : Safe a := by
  induction a with
  | nil => exact safe_nil
  | cons u a ih =>
    obtain ⟨htarget, hentity, hrest⟩ := safe_cons.1 h
    exact safe_cons.2 ⟨fun hu => beginsTarget_of_append hs.1 (htarget hu),
      fun hu => beginsEntity_of_append hs.2 (hentity hu), ih hrest⟩

theorem apart_of_isMark (h : isMark s = true) : Apart s := by
  rw [isMark, Bool.and_eq_true, Bool.not_eq_true', decide_eq_true_eq] at h
  have hlower : asciiLower s = s := by
    refine if_neg fun hupper => Bool.false_ne_true (h.1.symm.trans ?_)
    simp only [isAsciiAlphanumeric, isAsciiLetter, Bool.or_eq_true, Bool.and_eq_true,
      decide_eq_true_eq]
    omega
  have hnot : ∀ word : Utf16Text,
      (∀ v ∈ word, isAsciiAlphanumeric v = true ∨ v ∈ [0x3a, 0x3b]) → s ∉ word := by
    intro word hword hmem
    rcases hword s hmem with hs | hs
    · exact Bool.false_ne_true (h.1.symm.trans hs)
    · exact h.2 ((by decide : [0x3a, 0x3b] ⊆ [0x26, 0x3a, 0x3b, 0x3c, codeOpen, codeClose]) hs)
  refine ⟨fun scheme hscheme => ?_, fun word hword => hnot word ?_⟩
  · rw [hlower]
    refine hnot scheme ?_
    revert scheme
    decide
  · revert word
    decide

theorem safe_of_plain {w : Utf16Text} (h : ∀ u ∈ w, isPlain u = true) : Safe w := by
  induction w with
  | nil => exact safe_nil
  | cons u w ih =>
    have hu := h u List.mem_cons_self
    refine safe_cons.2 ⟨fun heq => ?_, fun heq => ?_,
      ih fun v hv => h v (List.mem_cons_of_mem _ hv)⟩
    · rw [heq] at hu
      exact absurd hu (by decide)
    · rw [heq] at hu
      exact absurd hu (by decide)

theorem safe_entity {w : Utf16Text} (h : w ∈ entities) : Safe w := by
  have hrest : ∀ rest ∈ [utf16 "amp;", utf16 "lt;", utf16 "gt;"], Safe (0x26 :: rest) := by
    intro rest hrest
    refine safe_cons.2 ⟨fun hu => absurd hu (by decide), fun _ => ⟨rest, hrest, List.prefix_rfl⟩,
      safe_of_plain ?_⟩
    revert rest
    decide
  simp only [entities, List.mem_cons, List.not_mem_nil, or_false] at h
  rcases h with rfl | rfl | rfl
  · exact hrest (utf16 "amp;") (by decide)
  · exact hrest (utf16 "lt;") (by decide)
  · exact hrest (utf16 "gt;") (by decide)

/-- **Safe texts can be cut and put together.** -/
theorem carries_safe : Carries Safe fun _ => False where
  append := Safe.append
  plain := safe_of_plain
  cut hs h := ⟨h.left (apart_of_isMark hs), (safe_cons.1 h.right).2.2⟩
  entity := safe_entity
  cutEntity hw h := by
    have hamp : ∀ w ∈ entities, ∃ v, w = 0x26 :: v := by
      intro w hw
      simp only [entities, List.mem_cons, List.not_mem_nil, or_false] at hw
      rcases hw with rfl | rfl | rfl <;> exact ⟨_, rfl⟩
    refine ⟨?_, h.right.right⟩
    obtain ⟨v, rfl⟩ := hamp _ hw
    exact h.left (by decide)
  target ht h := safe_cons.2 ⟨fun _ => ht, fun hu => absurd hu (by decide), h⟩
  has_append _ _ := by simp
  not_has _ := id
  has_target h := h

/-! ### Escaped texts -/

/-- What a unit is escaped to. -/
def slackUnit (u : ℕ) : Utf16Text :=
  if u = 0x26 then utf16 "&amp;" else if u = 0x3c then utf16 "&lt;"
  else if u = 0x3e then utf16 "&gt;" else [u]

/-- Escaping one unit after the other escapes each once: the ampersands come first. -/
theorem escapeSlackText_eq (text : Utf16Text) : escapeSlackText text = text.flatMap slackUnit := by
  unfold escapeSlackText replaceUnit
  rw [List.flatMap_assoc, List.flatMap_assoc]
  refine List.flatMap_congr fun u _ => ?_
  unfold slackUnit
  split_ifs with hamp hlt hgt
  · decide
  · rw [hlt]
    decide
  · rw [hgt]
    decide
  · simp only [List.flatMap_cons, List.flatMap_nil, List.append_nil, if_neg hlt, if_neg hgt]

/-- **An escaped text is safe.** -/
theorem safe_escapeSlackText (text : Utf16Text) : Safe (escapeSlackText text) := by
  rw [escapeSlackText_eq]
  induction text with
  | nil => exact safe_nil
  | cons u text ih =>
    rw [List.flatMap_cons]
    refine Safe.append ?_ ih
    unfold slackUnit
    split_ifs with hamp hlt hgt
    · exact safe_entity (by decide)
    · exact safe_entity (by decide)
    · exact safe_entity (by decide)
    · exact safe_cons.2 ⟨fun h => absurd h hlt, fun h => absurd h hamp, safe_nil⟩

/-! ### The code -/

theorem stashMatches_snd (text : Utf16Text) (value : Match → Utf16Text) (ms : List Match) :
    ∀ i store, (stashMatches text value i ms store).2 = store ++ ms.map value := by
  induction ms with
  | nil => exact fun _ store => (List.append_nil store).symm
  | cons m ms ih =>
    intro i store
    rw [stashMatches, ih, List.map_cons, List.append_assoc, List.singleton_append]

/-- The code that is put aside is escaped. -/
theorem safe_of_mem_stashed {markdown code : Utf16Text} (h : code ∈ (stashed markdown).2) :
    Safe code := by
  have hquoted : ∀ opening closing text : Utf16Text, (∀ u ∈ opening, isPlain u = true) →
      (∀ u ∈ closing, isPlain u = true) →
      Safe (opening ++ (escapeSlackText text ++ closing)) := fun opening closing text ho hc =>
    (safe_of_plain ho).append ((safe_escapeSlackText text).append (safe_of_plain hc))
  rw [stashed, stashMatches_snd, withoutFences, stashMatches_snd, List.nil_append,
    List.mem_append, List.mem_map, List.mem_map] at h
  rcases h with ⟨m, -, rfl⟩ | ⟨m, -, rfl⟩
  · exact hquoted _ _ _ (by decide) (by decide)
  · exact hquoted _ _ _ (by decide) (by decide)

theorem placeholderPattern_eq : placeholderPattern = literalThen [codeOpen] (.seq
    (group 1 (.seq (iter (units .digit) 1 none true) empty)) (literalThen [codeClose] empty)) := by
  decide +kernel

/-- Putting safe code back into a safe text. -/
theorem safe_restored {code : List Utf16Text} (hcode : ∀ c ∈ code, Safe c)
    (h : Safe text) : Safe (restored code text) := by
  refine replaceAllWith_induction (fun _ out => Safe out) (fun i _ => ?_)
    fun i m out _ hi hstart hstop hmatch ih => ?_
  · rw [← List.take_append_drop i text] at h
    exact h.right
  · rw [placeholderPattern_eq] at hmatch
    obtain ⟨w₁, w₂, hw, hopen, -⟩ := matches_literalThen hmatch
    rw [List.map_id, List.map_id] at hopen
    rw [hopen] at hw
    have hslice : Safe (sliceUnits text i m.start) := by
      rw [← List.take_append_drop i text, drop_eq_slice_append text hi,
        drop_eq_slice_append text hstart, hw] at h
      exact Safe.left (s := codeOpen) (by decide) h.right
    refine hslice.append (Safe.append ?_ ih)
    cases hget : code[numberOfDigits (groupOf m text 1)]? with
    | none => exact safe_nil
    | some c => exact hcode c (List.mem_of_getElem? hget)

/-! ### The law -/

/-- **No control sequence is formed**, whatever the message. -/
theorem mrkdwn_safe (markdown : Utf16Text) : Safe (markdownToMrkdwn markdown) := by
  have hrewritten := (carries_safe.rewritten markdown (safe_escapeSlackText _)
    (.inr fun _ => id)).1
  have hcode : ∀ c ∈ (stashed markdown).2, Safe c := fun c hc => safe_of_mem_stashed hc
  have hrestored := safe_restored hcode hrewritten
  have hstars : ∀ u ∈ [0x2a], isPlain u = true := by decide
  have hlines : ∀ u ∈ [0x5f], isPlain u = true := by decide
  rw [markdownToMrkdwn, marked]
  have hbold := (carries_safe.replacedUnit (u := bold) (by decide) hstars _ hrestored).1
  exact (carries_safe.replacedUnit (u := italic) (by decide) hlines _ hbold).1

end Munin.Conversations.Slack
