import Munin.Conversations.SlackMarkup

/-!
# What the stages of Slack's markup carry along

The stages that rewrite a text take it apart at marks, at units that are in no name, no number and
no entity, and put its pieces together again. A property of texts that can be cut at marks, and what
the texts that have it contain, pass through all of them.

* **`Carries`** — a property that can be cut and put together, and what texts contain.
* **`Carries.replaceAllWith`** — the rule for a stage that replaces matches: a match is a word
  between two cuts.
* **`Carries.rewritten`** — all stages between putting code aside and putting it back.
-/

namespace Munin.Conversations.Slack

open Foundations Regex

/-! ### Marks -/

/-- The units at which a text can be cut. -/
def isMark (u : ℕ) : Bool :=
  !isAsciiAlphanumeric u && u ∉ [0x26, 0x3a, 0x3b, 0x3c, codeOpen, codeClose]

/-- The units that need nothing behind them. -/
def isPlain (u : ℕ) : Bool := u ∉ [0x26, 0x3c, codeOpen, codeClose]

def entities : List Utf16Text := [utf16 "&amp;", utf16 "&lt;", utf16 "&gt;"]

def schemes : List Utf16Text := [utf16 "http:", utf16 "https:", utf16 "mailto:", utf16 "tel:"]

/-- The text begins with a scheme, in any letter case. -/
def BeginsTarget (text : Utf16Text) : Prop :=
  ∃ scheme ∈ schemes, (text.take scheme.length).map asciiLower = scheme

/-- The words at which a text can be cut. -/
def IsCut (w : Utf16Text) : Prop := (w ≠ [] ∧ ∀ u ∈ w, isMark u = true) ∨ w ∈ entities

theorem isPlain_of_isMark {u : ℕ} (h : isMark u = true) : isPlain u = true := by
  simp only [isMark, isPlain, Bool.and_eq_true, decide_eq_true_eq, List.mem_cons,
    List.not_mem_nil, or_false] at h ⊢
  exact fun hu => h.2 (by omega)

/-- **What is carried along**: a property of texts, and what the texts that have it contain. -/
structure Carries (P Has : Utf16Text → Prop) : Prop where
  append {a b : Utf16Text} (ha : P a) (hb : P b) : P (a ++ b)
  plain {w : Utf16Text} (h : ∀ u ∈ w, isPlain u = true) : P w
  cut {a b : Utf16Text} {s : ℕ} (hs : isMark s = true) (h : P (a ++ s :: b)) : P a ∧ P b
  entity {w : Utf16Text} (hw : w ∈ entities) : P w
  cutEntity {a w b : Utf16Text} (hw : w ∈ entities) (h : P (a ++ (w ++ b))) : P a ∧ P b
  target {t : Utf16Text} (ht : BeginsTarget t) (h : P t) : P (0x3c :: t)
  has_append {a b : Utf16Text} (ha : P a) (hb : P b) : Has (a ++ b) ↔ Has a ∨ Has b
  not_has {w : Utf16Text} (h : codeOpen ∉ w) : ¬ Has w
  has_target {t : Utf16Text} (h : Has t) : Has (0x3c :: t)

namespace Carries

variable {P Has : Utf16Text → Prop} (hP : Carries P Has)

include hP

variable {a w b : Utf16Text}

/-- A text is taken apart at a cut. -/
theorem cuts (hw : IsCut w) (h : P (a ++ (w ++ b))) : P a ∧ P w ∧ P b := by
  rcases hw with ⟨hne, hmarks⟩ | hentity
  · have hplain := hP.plain fun u hu => isPlain_of_isMark (hmarks u hu)
    refine ⟨?_, hplain, ?_⟩
    · obtain ⟨u, w, rfl⟩ := List.exists_cons_of_ne_nil hne
      exact (hP.cut (hmarks u List.mem_cons_self) h).1
    · obtain ⟨w, u, rfl⟩ := (List.eq_nil_or_concat' w).resolve_left hne
      rw [List.append_assoc, ← List.append_assoc] at h
      exact (hP.cut (hmarks u (List.mem_append_right _ List.mem_cons_self)) h).2
  · exact ⟨(hP.cutEntity hentity h).1, hP.entity hentity, (hP.cutEntity hentity h).2⟩

theorem not_has_of_isCut (hw : IsCut w) : ¬ Has w := by
  refine hP.not_has fun hopen => ?_
  rcases hw with ⟨-, hmarks⟩ | hentity
  · exact absurd (hmarks _ hopen) (by decide)
  · exact (by decide : ∀ w ∈ entities, codeOpen ∉ w) w hentity hopen

/-- What stands between two cuts. -/
theorem cuts_between {o c : Utf16Text} (ho : IsCut o) (hc : IsCut c)
    (h : P (a ++ ((o ++ (w ++ c)) ++ b))) : P a ∧ P w ∧ P b ∧
      (Has (a ++ ((o ++ (w ++ c)) ++ b)) → Has a ∨ Has w ∨ Has b) := by
  rw [List.append_assoc, List.append_assoc] at h ⊢
  obtain ⟨ha, hPo, hrest⟩ := hP.cuts ho h
  obtain ⟨hw, hPc, hb⟩ := hP.cuts hc hrest
  refine ⟨ha, hw, hb, fun hhas => ?_⟩
  rw [hP.has_append ha (hP.append hPo hrest), hP.has_append hPo hrest,
    hP.has_append hw (hP.append hPc hb), hP.has_append hPc hb] at hhas
  rcases hhas with hhas | hhas | hhas | hhas | hhas
  · exact .inl hhas
  · exact absurd hhas (hP.not_has_of_isCut ho)
  · exact .inr (.inl hhas)
  · exact absurd hhas (hP.not_has_of_isCut hc)
  · exact .inr (.inr hhas)

/-- A text becomes another one that has the property, and contains what it contains. -/
def Becomes (P Has : Utf16Text → Prop) (text out : Utf16Text) : Prop :=
  P text → P out ∧ (Has text → Has out)

omit hP in
theorem Becomes.trans {c : Utf16Text} (hab : Becomes P Has a b) (hbc : Becomes P Has b c) :
    Becomes P Has a c := fun ha =>
  ⟨(hbc (hab ha).1).1, fun h => (hbc (hab ha).1).2 ((hab ha).2 h)⟩

/-- A match is a word between two cuts, and that word becomes what the match is replaced by. -/
def Replaces (P Has : Utf16Text → Prop) (w new : Utf16Text) : Prop :=
  ∃ o body c, w = o ++ (body ++ c) ∧ IsCut o ∧ IsCut c ∧ Becomes P Has body new

/-- **The rule for a stage that replaces matches.** -/
theorem replaceAllWith {r : Regex} {text : Utf16Text} {f : Match → Utf16Text}
    (hf : ∀ m ∈ matchAll id r text, Matches id r (text.take m.start)
      (sliceUnits text m.start m.stop) (text.drop m.stop) [] (wordsOf text m.captures) →
      Replaces P Has (sliceUnits text m.start m.stop) (f m)) :
    Becomes P Has text (replaceAllWith id r text f) := by
  refine replaceAllWith_induction (fun i out => Becomes P Has (text.drop i) out)
    (fun i _ h => ⟨h, id⟩) fun i m out hm hi hstart _ hmatch ih h => ?_
  obtain ⟨o, body, c, hw, ho, hc, hbody⟩ := hf m hm hmatch
  rw [drop_eq_slice_append text hi, drop_eq_slice_append text hstart, hw] at h ⊢
  obtain ⟨hslice, hPbody, hrest, hhas⟩ := hP.cuts_between ho hc h
  have hnew := (hbody hPbody).1
  have hout := (ih hrest).1
  refine ⟨hP.append hslice (hP.append hnew hout), fun h => ?_⟩
  rw [hP.has_append hslice (hP.append hnew hout), hP.has_append hnew hout]
  exact (hhas h).imp id (Or.imp (hbody hPbody).2 (ih hrest).2)

/-- A word stays, with plain units around it. -/
theorem becomes_around {opening body closing : Utf16Text}
    (ho : ∀ u ∈ opening, isPlain u = true) (hc : ∀ u ∈ closing, isPlain u = true) :
    Becomes P Has body (opening ++ (body ++ closing)) := by
  intro h
  have hright := hP.append h (hP.plain hc)
  refine ⟨hP.append (hP.plain ho) hright, fun hhas => ?_⟩
  rw [hP.has_append (hP.plain ho) hright, hP.has_append h (hP.plain hc)]
  exact .inr (.inl hhas)

/-- A word without placeholders becomes a word of plain units. -/
theorem becomes_plain {new : Utf16Text} (hw : codeOpen ∉ w)
    (hnew : ∀ u ∈ new, isPlain u = true) : Becomes P Has w new := fun _ =>
  ⟨hP.plain hnew, fun h => absurd h (hP.not_has hw)⟩

end Carries

/-! ### Emphasis -/

variable {m : Match} {before w after line : Utf16Text} {c c' : Captured}

theorem groupOf_eq {text body : Utf16Text} {n : ℕ}
    (h : (wordsOf text m.captures).lookup n = some body) : groupOf m text n = body := by
  rw [groupOf, captured_eq_lookup, h]
  rfl

/-- `\S` -/
def inkClass : UnitClass := ⟨UnitClass.blankRanges, true⟩

/-- The units that a backslash takes their meaning from. -/
def escapable : UnitClass := ⟨[(0x5c, 0x5c), (0x60, 0x60), (0x2a, 0x2a), (0x5f, 0x5f),
  (0x7e, 0x7e), (0x5b, 0x5b), (0x5d, 0x5d), (0x28, 0x28), (0x29, 0x29), (0x23, 0x23),
  (0x2b, 0x2b), (0x2d, 0x2d), (0x2e, 0x2e), (0x21, 0x21), (0x3e, 0x3e)], false⟩

/-- The patterns of emphasis. -/
theorem emphasis_eq :
    boldPattern = literalThen (utf16 "**") (.seq
    (ahead false (.seq (units inkClass) empty)) (.seq (group 1 (.seq
      (iter (units ⟨UnitClass.blankRanges ++ UnitClass.nonBlankRanges, false⟩) 0 none false)
      (.seq (units inkClass) empty))) (literalThen (utf16 "**") empty))) ∧
    underscorePattern = .seq
    (behind true ⟨UnitClass.word.ranges ++ [(0x5c, 0x5c)], false⟩) (literalThen (utf16 "__") (.seq
    (ahead false (.seq (units inkClass) empty)) (.seq (group 1 (.seq
      (iter (units ⟨UnitClass.blankRanges ++ UnitClass.nonBlankRanges, false⟩) 0 none false)
      (.seq (units inkClass) empty))) (literalThen (utf16 "__")
      (.seq (ahead true (.seq (units .word) empty)) empty))))) ∧
    strikePattern = literalThen (utf16 "~~") (.seq
    (ahead false (.seq (units inkClass) empty)) (.seq (group 1 (.seq
      (iter (units ⟨UnitClass.blankRanges ++ UnitClass.nonBlankRanges, false⟩) 0 none false)
      (.seq (units inkClass) empty))) (literalThen (utf16 "~~") empty))) ∧
    italicPattern = .seq
    (behind true ⟨UnitClass.word.ranges ++ [(0x2a, 0x2a), (0x5c, 0x5c)], false⟩)
    (literalThen (utf16 "*") (.seq
    (ahead false (.seq (units ⟨UnitClass.blankRanges ++ [(0x2a, 0x2a)], true⟩) empty))
    (.seq (group 1 (alt (.seq (iter (units ⟨[(0x2a, 0x2a), (0x0a, 0x0a)], true⟩) 0 none true)
      (.seq (units ⟨UnitClass.blankRanges ++ [(0x2a, 0x2a)], true⟩) empty)) empty))
    (literalThen (utf16 "*") (.seq (ahead true (.seq (units .word) empty)) empty))))) ∧
    escapePattern = literalThen (utf16 "\\")
    (.seq (group 1 (.seq (units escapable) empty)) empty) := by
  decide +kernel

namespace Carries

variable {P Has : Utf16Text → Prop} (hP : Carries P Has)

include hP

/-- A stage that writes other marks around what stands between two words of marks. -/
theorem becomes_delimited {r : Regex} (opening closing : Utf16Text)
    {o c : Utf16Text} (hopening : IsCut opening) (hclosing : IsCut closing)
    (ho : ∀ u ∈ o, isPlain u = true) (hc : ∀ u ∈ c, isPlain u = true)
    (hr : ∀ before w after captured, Matches id r before w after [] captured →
      ∃ body, w = opening ++ (body ++ closing) ∧ captured.lookup 1 = some body)
    (text : Utf16Text) : Becomes P Has text (Regex.replaceAllWith id r text (around o c text)) := by
  refine hP.replaceAllWith fun m _ hmatch => ?_
  obtain ⟨body, hw, hbody⟩ := hr _ _ _ _ hmatch
  refine ⟨opening, body, closing, hw, hopening, hclosing, ?_⟩
  rw [around, groupOf_eq hbody]
  exact hP.becomes_around ho hc

theorem boldened (text : Utf16Text) : Becomes P Has text (boldened text) := by
  refine hP.becomes_delimited (utf16 "**") (utf16 "**") (.inl (by decide))
    (.inl (by decide)) (by decide) (by decide) (fun before w after captured h => ?_) text
  rw [emphasis_eq.1] at h
  exact matches_delimited (zeroWidth_ahead_units _ _) zeroWidth_empty h

theorem underscored (text : Utf16Text) :
    Becomes P Has text (underscored text) := by
  refine hP.becomes_delimited (utf16 "__") (utf16 "__") (.inl (by decide))
    (.inl (by decide)) (by decide) (by decide) (fun before w after captured h => ?_) text
  rw [emphasis_eq.2.1] at h
  obtain ⟨_, v, _, rfl, ⟨rfl, rfl, -⟩, h⟩ := h
  exact matches_delimited (zeroWidth_ahead_units _ _)
    ((zeroWidth_ahead_units _ _).seq zeroWidth_empty) h

theorem struck (text : Utf16Text) : Becomes P Has text (struck text) := by
  refine hP.becomes_delimited (utf16 "~~") (utf16 "~~") (.inl (by decide))
    (.inl (by decide)) (by decide) (by decide) (fun before w after captured h => ?_) text
  rw [emphasis_eq.2.2.1] at h
  exact matches_delimited (zeroWidth_ahead_units _ _) zeroWidth_empty h

theorem italicized (text : Utf16Text) :
    Becomes P Has text (italicized text) := by
  refine hP.becomes_delimited (utf16 "*") (utf16 "*") (.inl (by decide))
    (.inl (by decide)) (by decide) (by decide) (fun before w after captured h => ?_) text
  rw [emphasis_eq.2.2.2.1] at h
  obtain ⟨_, v, _, rfl, ⟨rfl, rfl, -⟩, h⟩ := h
  exact matches_delimited (zeroWidth_ahead_units _ _)
    ((zeroWidth_ahead_units _ _).seq zeroWidth_empty) h

/-- A backslash goes, and the mark behind it stays. -/
theorem unescaped (text : Utf16Text) :
    Becomes P Has text (unescaped text) := by
  refine hP.replaceAllWith fun m _ hmatch => ?_
  rw [emphasis_eq.2.2.2.2] at hmatch
  obtain ⟨w₁, w₂, hw, hslash, v, e, _, rfl, ⟨_, ⟨x, y, _, rfl, ⟨u, rfl, hu, rfl⟩, rfl, rfl⟩, rfl⟩,
    rfl, hcaptured⟩ := matches_literalThen hmatch
  have hmark : isMark u = true := all_of_has (by decide) rfl hu
  rw [List.map_id, List.map_id] at hslash
  refine ⟨[0x5c], [], [u], ?_, .inl (by decide), .inl ⟨by simp, fun v hv => ?_⟩, ?_⟩
  · rw [hw, hslash]
    rfl
  · rw [List.mem_singleton.1 hv]
    exact hmark
  · have hgroup : groupOf m text 1 = [u] := groupOf_eq (by rw [hcaptured]; rfl)
    rw [around, hgroup]
    refine hP.becomes_plain List.not_mem_nil fun v hv => ?_
    rw [List.mem_singleton.1 hv]
    exact isPlain_of_isMark hmark

theorem emphasized (text : Utf16Text) :
    Becomes P Has text (emphasized text) :=
  ((((hP.boldened text).trans (hP.underscored _)).trans (hP.struck _)).trans
    (hP.italicized _)).trans (hP.unescaped _)

end Carries

/-! ### Links -/

theorem BeginsTarget.append {t : Utf16Text} (h : BeginsTarget t) (rest : Utf16Text) :
    BeginsTarget (t ++ rest) := by
  obtain ⟨scheme, hscheme, ht⟩ := h
  refine ⟨scheme, hscheme, ?_⟩
  have hlength := congrArg List.length ht
  rw [List.length_map, List.length_take] at hlength
  rwa [List.take_append_of_le_length (by omega)]

theorem beginsTarget_of_lower {a b : Utf16Text} (h : a.map asciiLower ∈ schemes) :
    BeginsTarget (a ++ b) := by
  refine BeginsTarget.append ⟨_, h, ?_⟩ b
  rw [List.length_map, List.take_length]

/-- A target that Slack can open begins with a scheme. -/
theorem linkTarget_spec {url target : Utf16Text} (h : linkTarget url = some target) :
    BeginsTarget target ∧ ∃ opening, target = opening ++ url ∧
      ∀ u ∈ opening, isPlain u = true := by
  have hscheme : rx "^(https?:|mailto:|tel:)" = .seq start (.seq (group 1 (alt
      (literalThen (utf16 "http") (.seq (iter (units ⟨[(0x73, 0x73)], false⟩) 0 (some 1) true)
        (literalThen (utf16 ":") empty)))
      (alt (literalThen (utf16 "mailto:") empty) (literalThen (utf16 "tel:") empty)))) empty) := by
    decide +kernel
  unfold linkTarget at h
  split_ifs at h with htest
  · obtain rfl := Option.some.inj h
    refine ⟨?_, [], rfl, fun _ h => absurd h List.not_mem_nil⟩
    rw [hscheme] at htest
    obtain ⟨before, w, after, c, rfl, _, w', _, rfl, ⟨rfl, rfl, rfl⟩, v, e, _, rfl, ⟨_, hv, -⟩, rfl,
      -⟩ := exists_matches_of_test htest
    rw [List.nil_append, List.nil_append, List.append_nil]
    refine beginsTarget_of_lower ?_
    rcases hv with hv | hv | hv
    · obtain ⟨w₁, w₂, rfl, hhttp, s, x, _, rfl, hs, hx⟩ := matches_literal_anyCase (by decide) hv
      obtain ⟨colon, e, rfl, hcolon, rfl, -⟩ := matches_literal_anyCase (by decide) hx
      rw [List.append_nil, List.map_append, List.map_append, hhttp, hcolon]
      rcases (matches_optional_anyCase (by decide) hs).1 with rfl | hs
      · decide
      · rw [hs]
        decide
    · obtain ⟨w₁, e, rfl, hword, rfl, -⟩ := matches_literal_anyCase (by decide) hv
      rw [List.append_nil, hword]
      decide
    · obtain ⟨w₁, e, rfl, hword, rfl, -⟩ := matches_literal_anyCase (by decide) hv
      rw [List.append_nil, hword]
      decide
  · obtain rfl := Option.some.inj h
    exact ⟨beginsTarget_of_lower (a := utf16 "https:") (b := utf16 "//" ++ url) (by decide),
      utf16 "https://", rfl, by decide⟩
  · obtain rfl := Option.some.inj h
    exact ⟨beginsTarget_of_lower (by decide), utf16 "mailto:", rfl, by decide⟩

/-- `\s*` -/
def blanks (least : ℕ) : Regex := iter (units ⟨UnitClass.blankRanges, false⟩) least none true

/-- The title of a link, with the blanks before it. -/
def titleForm : Regex :=
  .seq (blanks 1) (literalThen [0x22] (.seq
    (iter (units ⟨[(0x22, 0x22), (0x0a, 0x0a)], true⟩) 0 none true) (literalThen [0x22] empty)))

/-- A link behind its first bracket. -/
def linkForm : Regex :=
  .seq (group 1 (.seq (iter (units ⟨[(0x5d, 0x5d), (0x0a, 0x0a)], true⟩) 0 none true) empty))
    (literalThen (utf16 "](") (.seq (blanks 0) (.seq
      (group 2
        (.seq (iter (units ⟨(0x29, 0x29) :: UnitClass.blankRanges, true⟩) 1 none false) empty))
      (.seq (iter titleForm 0 (some 1) true)
        (.seq (blanks 0) (literalThen (utf16 ")") empty))))))

theorem links_eq : linkPattern = literalThen (utf16 "[") linkForm ∧
    imagePattern = literalThen (utf16 "![") linkForm := by
  decide +kernel

/-- The parts of a link behind its first bracket. -/
structure LinkParts (w label url title : Utf16Text) : Prop where
  gaps : ∃ gap gap', w = label ++ (utf16 "](" ++ gap ++ (url ++ (title ++ (gap' ++ utf16 ")")))) ∧
    (∀ u ∈ gap, isMark u = true) ∧ ∀ u ∈ gap', isMark u = true
  /-- A title is kept apart from the target. -/
  title : ∀ u ∈ title.head?, isMark u = true

theorem isMark_of_blanks {least : ℕ} (h : Matches id (blanks least) before w after c c') :
    least ≤ w.length ∧ (∀ u ∈ w, isMark u = true) ∧ c' = c := by
  obtain ⟨hleast, -, hunits, hc⟩ := matches_iter_units h
  exact ⟨hleast, fun u hu => all_of_has (by decide) rfl (hunits u hu), hc⟩

theorem title_of_matches (h : Matches id (iter titleForm 0 (some 1) true) before w after c c') :
    (∀ u ∈ w.head?, isMark u = true) ∧ c' = c := by
  rcases matches_iter_one rfl h with ⟨rfl, hc⟩ | ⟨gap, rest, _, rfl, hgap, hrest⟩
  · exact ⟨fun u hu => absurd hu (by simp), hc⟩
  · obtain ⟨hpos, hmarks, rfl⟩ := isMark_of_blanks hgap
    obtain ⟨_, _, -, -, _, _, _, -, hunits, hquote⟩ := matches_literalThen hrest
    obtain ⟨-, -, -, rfl⟩ := matches_iter_units hunits
    obtain ⟨_, _, -, -, -, rfl⟩ := matches_literalThen hquote
    refine ⟨fun u hu => hmarks u ?_, rfl⟩
    cases gap with
    | nil => exact absurd hpos (Nat.not_succ_le_zero _)
    | cons v gap => exact (Option.some.inj hu) ▸ List.mem_cons_self

theorem linkParts_of_matches (h : Matches id linkForm before w after c c') :
    ∃ label url title, LinkParts w label url title ∧ c'.lookup 1 = some label ∧
      c'.lookup 2 = some url := by
  obtain ⟨label, x, _, rfl, ⟨_, -, rfl⟩, hx⟩ := h
  obtain ⟨w₁, y, rfl, hw₁, gap, z, _, rfl, hgap, url, q, _, rfl, ⟨_, hurl, rfl⟩, title, p, _, rfl,
    htitle, gap', e, _, rfl, hgap', he⟩ := matches_literalThen hx
  obtain ⟨closing, e', rfl, hclosing, rfl, rfl⟩ := matches_literalThen he
  obtain ⟨-, hmarks, rfl⟩ := isMark_of_blanks hgap
  obtain ⟨-, hmarks', rfl⟩ := isMark_of_blanks hgap'
  obtain ⟨_, _, _, rfl, hurl, rfl, rfl⟩ := hurl
  obtain ⟨-, -, -, rfl⟩ := matches_iter_units hurl
  obtain ⟨hmark, rfl⟩ := title_of_matches htitle
  rw [List.map_id, List.map_id] at hw₁ hclosing
  refine ⟨label, _, title, ⟨⟨gap, gap', ?_, hmarks, hmarks'⟩, hmark⟩, rfl, rfl⟩
  rw [hw₁, hclosing, List.append_nil, List.append_nil, List.append_assoc]

/-- The code in a match of a link is all in what stays of it: in its label, or in a target that
Slack can open or that stands for an empty label. -/
def KeepsCode (text : Utf16Text) (m : Match) : Prop :=
  let label := groupOf m text 1
  let url := groupOf m text 2
  (sliceUnits text m.start m.stop).count codeOpen = label.count codeOpen +
    if label = [] ∨ linkTarget url ≠ none then url.count codeOpen else 0

instance (text : Utf16Text) (m : Match) : Decidable (KeepsCode text m) :=
  inferInstanceAs (Decidable (_ = _))

namespace Carries

variable {P Has : Utf16Text → Prop} (hP : Carries P Has)

include hP

/-- A target and what stands behind it. -/
theorem opened {t rest : Utf16Text} (ht : BeginsTarget t) (h : P t)
    (hrest : P rest) : P (0x3c :: (t ++ rest)) ∧
      (Has t ∨ Has rest → Has (0x3c :: (t ++ rest))) :=
  ⟨hP.target (ht.append rest) (hP.append h hrest),
    fun hhas => hP.has_target ((hP.has_append h hrest).2 hhas)⟩

/-- What is written for a link has its label and its target, if it has one. -/
theorem slackLink_spec {url label : Utf16Text} (hurl : P url)
    (hlabel : P label) : P (slackLink url label) ∧ (Has label → Has (slackLink url label)) ∧
      (linkTarget url ≠ none → Has url → Has (slackLink url label)) := by
  rw [slackLink]
  cases htarget : linkTarget url with
  | none => exact ⟨hlabel, id, fun hne => absurd rfl hne⟩
  | some target =>
    obtain ⟨hbegins, opening, rfl, hopening⟩ := linkTarget_spec htarget
    have hPopening := hP.plain hopening
    have hclosing : ∀ u ∈ [0x3e], isPlain u = true := by decide
    have hbar : ∀ u ∈ [0x7c], isPlain u = true := by decide
    have hPlabel := hP.append hlabel (hP.plain hclosing)
    have hrest := hP.append (hP.plain hbar) hPlabel
    obtain ⟨hPlink, hhas⟩ := hP.opened hbegins (hP.append hPopening hurl) hrest
    refine ⟨hPlink, fun h => hhas (.inr ?_), fun _ h => hhas (.inl ?_)⟩
    · exact (hP.has_append (hP.plain hbar) hPlabel).2
        (.inr ((hP.has_append hlabel (hP.plain hclosing)).2 (.inl h)))
    · exact (hP.has_append hPopening hurl).2 (.inr h)

/-- A text is taken apart before a mark, and at its end. -/
theorem cut_before {a b : Utf16Text} (hb : ∀ u ∈ b.head?, isMark u = true)
    (h : P (a ++ b)) : P a ∧ P b := by
  cases b with
  | nil => exact ⟨(List.append_nil a) ▸ h, hP.plain fun _ h => absurd h List.not_mem_nil⟩
  | cons s b =>
    have hs := hb s rfl
    obtain ⟨ha, hb⟩ := hP.cut hs h
    refine ⟨ha, hP.append (a := [s]) (hP.plain fun u hu => ?_) hb⟩
    exact (List.mem_singleton.1 hu) ▸ isPlain_of_isMark hs

/-- The parts of a link have the property, and contain what the link does. -/
theorem parts_of_link {label gap url rest : Utf16Text}
    (hgap : ∀ u ∈ gap, isMark u = true) (hrest : ∀ u ∈ rest.head?, isMark u = true)
    (h : P (label ++ ((utf16 "](" ++ gap) ++ (url ++ rest)))) : P label ∧ P url ∧
      (Has (label ++ ((utf16 "](" ++ gap) ++ (url ++ rest))) → Has label ∨ Has url ∨ Has rest) := by
  have hcut : IsCut (utf16 "](" ++ gap) := by
    refine .inl ⟨List.append_ne_nil_of_left_ne_nil (by decide) _, fun u hu => ?_⟩
    rcases List.mem_append.1 hu with hu | hu
    · exact (by decide : ∀ u ∈ utf16 "](", isMark u = true) u hu
    · exact hgap u hu
  obtain ⟨hlabel, hPcut, htail⟩ := hP.cuts hcut h
  obtain ⟨hurl, hPrest⟩ := hP.cut_before hrest htail
  refine ⟨hlabel, hurl, fun hhas => ?_⟩
  rw [hP.has_append hlabel (hP.append hPcut htail), hP.has_append hPcut htail,
    hP.has_append hurl hPrest] at hhas
  rcases hhas with hhas | hhas | hhas
  · exact .inl hhas
  · exact absurd hhas (hP.not_has_of_isCut hcut)
  · exact .inr hhas

variable {text : Utf16Text}

/-- A link is replaced by its label or by what Slack opens. -/
theorem replaces_link {opening : Utf16Text} {m : Match}
    (hopening : IsCut opening) (hcount : opening.count codeOpen = 0)
    (hmatch : Matches id (literalThen opening linkForm) (text.take m.start)
      (sliceUnits text m.start m.stop) (text.drop m.stop) [] (wordsOf text m.captures))
    (hkeeps : KeepsCode text m ∨ ∀ w, ¬ Has w) :
    Replaces P Has (sliceUnits text m.start m.stop) (linkValue text m) := by
  obtain ⟨w₁, w₂, hw, hopen, hform⟩ := matches_literalThen hmatch
  obtain ⟨label, url, title, ⟨⟨gap, gap', rfl, hgap, hgap'⟩, htitle⟩, hlabel, hurl⟩ :=
    linkParts_of_matches hform
  rw [List.map_id, List.map_id] at hopen
  have hcounts : ∀ w : Utf16Text, (∀ u ∈ w, isMark u = true) → w.count codeOpen = 0 := fun w hw =>
    List.count_eq_zero.2 fun hmem => absurd (hw _ hmem) (by decide)
  have hrest : ∀ u ∈ (title ++ gap').head?, isMark u = true := by
    cases title with
    | nil => exact fun u hu => hgap' u (List.mem_of_mem_head? hu)
    | cons v title => exact htitle
  refine ⟨opening, label ++ ((utf16 "](" ++ gap) ++ (url ++ (title ++ gap'))), utf16 ")", ?_,
    hopening, .inl (by decide), fun h => ?_⟩
  · rw [hw, hopen]
    simp only [List.append_assoc]
  obtain ⟨hPlabel, hPurl, hhas⟩ := hP.parts_of_link hgap hrest h
  have hPshown : P (if label = [] then url else label) := by
    split_ifs
    · exact hPurl
    · exact hPlabel
  obtain ⟨hPlink, hshown, htarget⟩ := hP.slackLink_spec hPurl hPshown
  rw [linkValue, groupOf_eq hlabel, groupOf_eq hurl]
  refine ⟨hPlink, fun hbody => ?_⟩
  rcases hkeeps with hkeeps | hnone
  · -- no placeholder is in the title, nor in a target that is left out
    rw [KeepsCode, groupOf_eq hlabel, groupOf_eq hurl, hw, hopen] at hkeeps
    simp only [List.count_append, hcount, hcounts gap hgap, hcounts gap' hgap',
      (by decide : (utf16 "](").count codeOpen = 0),
      (by decide : (utf16 ")").count codeOpen = 0)] at hkeeps
    have hnot : ∀ w : Utf16Text, w.count codeOpen = 0 → ¬ Has w := fun w hw =>
      hP.not_has (List.count_eq_zero.1 hw)
    rcases hhas hbody with hhas | hhas | hhas
    · refine hshown ?_
      rwa [if_neg]
      rintro rfl
      exact absurd hhas (hnot [] rfl)
    · by_cases hempty : label = []
      · refine hshown ?_
        rwa [if_pos hempty]
      · by_cases hnone : linkTarget url = none
        · rw [if_neg (by tauto)] at hkeeps
          exact absurd hhas (hnot url (by omega))
        · exact htarget hnone hhas
    · refine absurd hhas (hnot _ ?_)
      rw [List.count_append, hcounts gap' hgap']
      split_ifs at hkeeps <;> omega
  · exact absurd hbody (hnone _)

theorem imaged (hkeeps : (∀ m ∈ matchAll id imagePattern text, KeepsCode text m) ∨ ∀ w, ¬ Has w) :
    Becomes P Has text (imaged text) := by
  refine hP.replaceAllWith fun m hm hmatch => ?_
  rw [links_eq.2] at hmatch
  exact hP.replaces_link (.inl (by decide)) (by decide) hmatch (hkeeps.imp (fun h => h m hm) id)

theorem linked (hkeeps : (∀ m ∈ matchAll id linkPattern text, KeepsCode text m) ∨ ∀ w, ¬ Has w) :
    Becomes P Has text (linked text) := by
  refine hP.replaceAllWith fun m hm hmatch => ?_
  rw [links_eq.1] at hmatch
  exact hP.replaces_link (.inl (by decide)) (by decide) hmatch (hkeeps.imp (fun h => h m hm) id)

/-- A bare URL in angle brackets gets them back. -/
theorem autolinked (text : Utf16Text) :
    Becomes P Has text (autolinked text) := by
  refine hP.replaceAllWith fun m _ hmatch => ?_
  have hform : autolinkPattern = literalThen (utf16 "&lt;") (.seq (group 1 (literalThen
      (utf16 "http") (.seq (iter (units ⟨[(0x73, 0x73)], false⟩) 0 (some 1) true)
        (literalThen (utf16 "://") (.seq (iter (units
          ⟨UnitClass.blankRanges ++ [(0x7c, 0x7c), (0x26, 0x26)], true⟩) 1 none true) empty)))))
      (literalThen (utf16 "&gt;") empty)) := by decide +kernel
  rw [hform] at hmatch
  obtain ⟨w₁, w₂, hw, hopen, hgroup⟩ := matches_literalThen hmatch
  obtain ⟨body, rfl, hbody, c, hurl⟩ := matches_group_literal zeroWidth_empty hgroup
  rw [List.map_id, List.map_id] at hopen
  refine ⟨utf16 "&lt;", body, utf16 "&gt;", by rw [hw, hopen], .inr (by decide), .inr (by decide),
    fun h => ?_⟩
  have hbegins : BeginsTarget body := by
    obtain ⟨http, _, rfl, hhttp, s, x, _, rfl, hs, hx⟩ := matches_literalThen hurl
    obtain ⟨slashes, _, rfl, hslashes, -⟩ := matches_literalThen hx
    rw [List.map_id, List.map_id] at hhttp hslashes
    obtain ⟨-, hone, hunits, -⟩ := matches_iter_units hs
    have hle : s.length ≤ 1 := hone 1 rfl
    rw [hhttp, hslashes]
    rcases s with _ | ⟨u, _ | ⟨v, s⟩⟩
    · exact beginsTarget_of_lower (a := utf16 "http:") (by decide)
    · obtain rfl : (0x73 : ℕ) = u := (has_single 0x73 u).1 (hunits u List.mem_cons_self)
      exact beginsTarget_of_lower (a := utf16 "https:") (by decide)
    · exact absurd (Nat.le_of_succ_le_succ hle) (Nat.not_succ_le_zero _)
  have hclosing : P [0x3e] := hP.plain (by decide)
  obtain ⟨hPlink, hhas⟩ := hP.opened hbegins h hclosing
  rw [around, groupOf_eq hbody]
  exact ⟨hPlink, fun hb => hhas (.inl hb)⟩

end Carries

/-! ### Lines -/

/-- `[ \t]` -/
def gapClass : UnitClass := ⟨[(0x20, 0x20), (0x09, 0x09)], false⟩

theorem isMark_of_iter {k : UnitClass}
    (hk : (k.ranges.all fun r => (List.range' r.1 (r.2 + 1 - r.1)).all isMark) = true)
    (hneg : k.negated = false) {least : ℕ} {most : Option ℕ} {greedy : Bool}
    (h : Matches id (iter (units k) least most greedy) before w after c c') :
    (∀ u ∈ w, isMark u = true) ∧ c' = c := by
  obtain ⟨-, -, hunits, hc⟩ := matches_iter_units h
  exact ⟨fun u hu => all_of_has hk hneg (hunits u hu), hc⟩

/-- What `exec` finds with a pattern for whole lines. -/
theorem matches_of_exec_line {r : Regex}
    (h : exec id (.seq start r) line = some m) : ∃ w after, line = w ++ after ∧
      Matches id r [] w after [] (wordsOf line m.captures) := by
  obtain ⟨-, hstart, hstop, hmatch⟩ := matches_of_execFrom h
  obtain ⟨w₁, w, _, hw, ⟨hbefore, rfl, rfl⟩, hr⟩ := hmatch
  rw [hbefore] at hr
  refine ⟨w, line.drop m.stop, ?_, hr⟩
  have hline := List.take_append_drop m.start line
  rw [hbefore, drop_eq_slice_append line hstart, hw] at hline
  exact hline.symm

/-- A mark once more, and blanks. -/
def againForm : Regex := .seq (backref 1) (.seq (iter (units gapClass) 0 none true) empty)

/-- The patterns of lines. -/
theorem lines_eq : rulePattern = .seq start (.seq (iter (units ⟨[(0x20, 0x20)], false⟩) 0 (some 3) true)
    (.seq (group 1 (.seq (units ⟨[(0x2d, 0x2d), (0x2a, 0x2a), (0x5f, 0x5f)], false⟩) empty))
    (.seq (iter (units gapClass) 0 none true)
    (.seq (iter againForm 2 none true) (.seq stop empty))))) ∧
    headingPattern = .seq start (.seq (iter (units ⟨[(0x20, 0x20)], false⟩) 0 (some 3)
    true) (.seq (iter (units ⟨[(0x23, 0x23)], false⟩) 1 (some 6) true)
    (.seq (iter (units gapClass) 1 none true)
    (.seq (group 1 (.seq (iter (units .dot) 0 none false) empty))
    (.seq (iter (units gapClass) 0 none true)
    (.seq (iter (units ⟨[(0x23, 0x23)], false⟩) 0 none true) (.seq stop empty))))))) ∧
    quotePattern = .seq start (.seq (iter (units ⟨[(0x20, 0x20)], false⟩) 0 (some 3)
    true) (literalThen (utf16 "&gt;") (.seq (iter (units gapClass) 0 (some 1) true)
    (.seq (group 1 (.seq (iter (units .dot) 0 none true) empty)) (.seq stop empty))))) ∧
    bulletPattern = .seq start (.seq (group 1 (.seq (iter (units gapClass) 0 none true)
    empty)) (.seq (units ⟨[(0x2d, 0x2d), (0x2a, 0x2a), (0x2b, 0x2b)], false⟩)
    (.seq (iter (units gapClass) 1 none true)
    (.seq (group 2 (.seq (iter (units .dot) 0 none true) empty)) (.seq stop empty))))) ∧
    taskPattern = .seq start (literalThen (utf16 "[") (.seq (group 1 (.seq
    (units ⟨[(0x20, 0x20), (0x78, 0x78), (0x58, 0x58)], false⟩) empty)) (literalThen (utf16 "]")
    (.seq (iter (units gapClass) 1 none true)
    (.seq (group 2 (.seq (iter (units .dot) 0 none true) empty)) (.seq stop empty)))))) := by
  decide +kernel

theorem isMark_of_turns_again {v : ℕ} (hv : isMark v = true) {n : ℕ} (hc : c.lookup 1 = some [v])
    (h : Turns (Matches id againForm) againForm.groups n before w after c c') :
    ∀ u ∈ w, isMark u = true := by
  induction h with
  | none => exact fun u hu => absurd hu List.not_mem_nil
  | @turn _ _ _ _ _ c _ _ first rest ih =>
    have hforget : (c.filter fun g => !againForm.groups.contains g.1) = c :=
      List.filter_eq_self.2 fun _ _ => rfl
    rw [hforget] at first
    obtain ⟨w₁, w₂, _, rfl, ⟨rfl, hagain⟩, gap, e, _, rfl, hgap, rfl, rfl⟩ := first
    obtain ⟨hmarks, rfl⟩ := isMark_of_iter (by decide) rfl hgap
    rw [List.map_id, List.map_id, hc, Option.getD_some] at hagain
    intro u hu
    rcases List.mem_append.1 hu with hu | hu
    · rcases List.mem_append.1 hu with hu | hu
      · rw [hagain, List.mem_singleton] at hu
        exact hu ▸ hv
      · exact hmarks u ((List.append_nil gap) ▸ hu)
    · exact ih hc u hu

/-- A line that is a rule has nothing but marks. -/
theorem isMark_of_rule (h : rulePattern.test id line = true) : ∀ u ∈ line, isMark u = true := by
  obtain ⟨m, hm⟩ := Option.isSome_iff_exists.1 h
  rw [lines_eq.1] at hm
  obtain ⟨w, after, rfl, sp, x, _, rfl, hsp, y, z, _, rfl, ⟨_, ⟨_, _, _, rfl, ⟨v, rfl, hv, rfl⟩,
    rfl, rfl⟩, rfl⟩, gap, q, _, rfl, hgap, rules, e, _, rfl, ⟨n, -, -, hturns⟩, e', _, _, rfl,
    ⟨hafter, rfl, rfl⟩, rfl, hlast⟩ := matches_of_exec_line hm
  obtain ⟨hspaces, rfl⟩ := isMark_of_iter (by decide) rfl hsp
  obtain ⟨hblanks, rfl⟩ := isMark_of_iter (by decide) rfl hgap
  have hv : isMark v = true := all_of_has (by decide) rfl hv
  have hrules := isMark_of_turns_again hv rfl hturns
  have hafter : after = [] := hafter
  intro u hu
  simp only [hafter, List.append_nil, List.mem_append, List.mem_singleton] at hu
  rcases hu with hu | rfl | hu | hu
  · exact hspaces u hu
  · exact hv
  · exact hblanks u hu
  · exact hrules u hu

/-- A line with a text between marks, the first group of which is the text. -/
def BetweenMarks (line text : Utf16Text) : Prop :=
  ∃ opening closing, line = opening ++ (text ++ closing) ∧ (∀ u ∈ opening, isMark u = true) ∧
    ∀ u ∈ closing, isMark u = true

theorem heading_spec (h : exec id headingPattern line = some m) :
    BetweenMarks line (groupOf m line 1) := by
  rw [lines_eq.2.1] at h
  obtain ⟨w, after, rfl, sp, _, _, rfl, hsp, hashes, _, _, rfl, hhashes, gap, _, _, rfl, hgap,
    text, _, _, rfl, ⟨_, ⟨_, _, _, rfl, htext, rfl, rfl⟩, rfl⟩, gap', _, _, rfl, hgap', hashes', _, _, rfl,
    hhashes', _, _, _, rfl, ⟨hafter, rfl, rfl⟩, rfl, hlast⟩ := matches_of_exec_line h
  obtain ⟨hsp', rfl⟩ := isMark_of_iter (by decide) rfl hsp
  obtain ⟨hh, rfl⟩ := isMark_of_iter (by decide) rfl hhashes
  obtain ⟨hg, rfl⟩ := isMark_of_iter (by decide) rfl hgap
  obtain ⟨-, -, -, rfl⟩ := matches_iter_units htext
  obtain ⟨hg', rfl⟩ := isMark_of_iter (by decide) rfl hgap'
  obtain ⟨hh', rfl⟩ := isMark_of_iter (by decide) rfl hhashes'
  have hafter : after = [] := hafter
  rw [groupOf_eq (by rw [hlast]; rfl)]
  refine ⟨sp ++ (hashes ++ gap), gap' ++ hashes', ?_, ?_, ?_⟩
  · simp only [hafter, List.append_nil, List.append_assoc]
  · simp only [List.mem_append]
    rintro u (hu | hu | hu)
    exacts [hsp' u hu, hh u hu, hg u hu]
  · simp only [List.mem_append]
    rintro u (hu | hu)
    exacts [hg' u hu, hh' u hu]

/-- A quoted line: its mark is escaped when the lines are converted. -/
theorem quote_spec (h : exec id quotePattern line = some m) :
    ∃ sp gap, line = sp ++ (utf16 "&gt;" ++ (gap ++ groupOf m line 1)) ∧
      (∀ u ∈ sp, isMark u = true) ∧ ∀ u ∈ gap, isMark u = true := by
  rw [lines_eq.2.2.1] at h
  obtain ⟨w, after, rfl, sp, rest, _, rfl, hsp, hquote⟩ := matches_of_exec_line h
  obtain ⟨w₁, _, rfl, hw₁, gap, _, _, rfl, hgap, text, _, _, rfl, ⟨_, ⟨_, _, _, rfl, htext, rfl,
    rfl⟩, rfl⟩, _, _, _, rfl, ⟨hafter, rfl, rfl⟩, rfl, hlast⟩ := matches_literalThen hquote
  obtain ⟨hs, rfl⟩ := isMark_of_iter (by decide) rfl hsp
  obtain ⟨hg, rfl⟩ := isMark_of_iter (by decide) rfl hgap
  have hafter : after = [] := hafter
  rw [List.map_id, List.map_id] at hw₁
  rw [groupOf_eq (by rw [hlast]; rfl)]
  refine ⟨sp, gap, ?_, hs, hg⟩
  rw [hw₁]
  simp only [hafter, List.append_nil]

theorem bullet_spec (h : exec id bulletPattern line = some m) :
    (∀ u ∈ groupOf m line 1, isMark u = true) ∧ BetweenMarks line (groupOf m line 2) := by
  rw [lines_eq.2.2.2.1] at h
  obtain ⟨w, after, rfl, _, _, _, rfl, ⟨_, ⟨indent, _, _, rfl, hindent, rfl, rfl⟩, rfl⟩, _, _, _,
    rfl, ⟨v, rfl, hv, rfl⟩, gap, _, _, rfl, hgap, text, _, _, rfl, ⟨_, ⟨_, _, _, rfl, htext, rfl,
    rfl⟩, rfl⟩, _, _, _, rfl, ⟨hafter, rfl, rfl⟩, rfl, hlast⟩ := matches_of_exec_line h
  obtain ⟨hi, rfl⟩ := isMark_of_iter (by decide) rfl hindent
  obtain ⟨hg, rfl⟩ := isMark_of_iter (by decide) rfl hgap
  obtain ⟨-, -, -, rfl⟩ := matches_iter_units htext
  have hv : isMark v = true := all_of_has (by decide) rfl hv
  have hafter : after = [] := hafter
  rw [groupOf_eq (n := 1) (by rw [hlast]; rfl), groupOf_eq (n := 2) (by rw [hlast]; rfl)]
  refine ⟨fun u hu => hi u (by rwa [List.append_nil] at hu), indent ++ (v :: gap), [], ?_, ?_,
    fun u hu => absurd hu List.not_mem_nil⟩
  · simp only [hafter, List.append_nil, List.append_assoc, List.cons_append, List.nil_append]
  · simp only [List.mem_append, List.mem_cons]
    rintro u (hu | rfl | hu)
    exacts [hi u hu, hv, hg u hu]

theorem task_spec {rest : Utf16Text} (h : exec id taskPattern rest = some m) :
    ∃ opening x gap, rest = opening ++ (x :: (0x5d :: gap ++ groupOf m rest 2)) ∧
      (∀ u ∈ opening, isMark u = true) ∧ (x = 0x20 ∨ x = 0x78 ∨ x = 0x58) ∧
      ∀ u ∈ gap, isMark u = true := by
  rw [lines_eq.2.2.2.2] at h
  obtain ⟨w, after, rfl, hbox⟩ := matches_of_exec_line h
  obtain ⟨w₁, _, rfl, hw₁, _, _, _, rfl, ⟨_, ⟨_, _, _, rfl, ⟨x, rfl, hx, rfl⟩, rfl, rfl⟩, rfl⟩,
    hclose⟩ := matches_literalThen hbox
  obtain ⟨w₂, _, rfl, hw₂, gap, _, _, rfl, hgap, text, _, _, rfl, ⟨_, ⟨_, _, _, rfl, htext, rfl,
    rfl⟩, rfl⟩, _, _, _, rfl, ⟨hafter, rfl, rfl⟩, rfl, hlast⟩ := matches_literalThen hclose
  obtain ⟨hg, rfl⟩ := isMark_of_iter (by decide) rfl hgap
  obtain ⟨-, -, -, rfl⟩ := matches_iter_units htext
  have hbox : (decide (x = 0x20 ∨ x = 0x78 ∨ x = 0x58)) = true :=
    all_of_has (p := fun x => decide (x = 0x20 ∨ x = 0x78 ∨ x = 0x58)) (by decide) rfl hx
  have hafter : after = [] := hafter
  rw [List.map_id, List.map_id] at hw₁ hw₂
  rw [groupOf_eq (n := 2) (by rw [hlast]; rfl)]
  refine ⟨w₁, x, gap, ?_, ?_, of_decide_eq_true hbox, hg⟩
  · rw [hw₂]
    simp only [hafter, List.append_nil, List.singleton_append]
    rfl
  · rw [hw₁]
    decide

namespace Carries

variable {P Has : Utf16Text → Prop} (hP : Carries P Has)

include hP

/-- Marks before a text may go. -/
theorem strip {a b : Utf16Text} (ha : ∀ u ∈ a, isMark u = true)
    (h : P (a ++ b)) : P b ∧ (Has (a ++ b) → Has b) := by
  by_cases hnil : a = []
  · rw [hnil] at h ⊢
    exact ⟨h, id⟩
  · have hcut : IsCut a := .inl ⟨hnil, ha⟩
    obtain ⟨-, hPa, hPb⟩ := hP.cuts (a := []) hcut h
    exact ⟨hPb, fun hhas => ((hP.has_append hPa hPb).1 hhas).resolve_left
      (hP.not_has_of_isCut hcut)⟩

/-- So may marks behind it. -/
theorem strip_end {a b : Utf16Text} (hb : ∀ u ∈ b, isMark u = true)
    (h : P (a ++ b)) : P a ∧ (Has (a ++ b) → Has a) := by
  obtain ⟨ha, hPb⟩ := hP.cut_before (fun u hu => hb u (List.mem_of_mem_head? hu)) h
  refine ⟨ha, fun hhas =>
    ((hP.has_append ha hPb).1 hhas).resolve_right (hP.not_has fun hopen => ?_)⟩
  exact absurd (hb _ hopen) (by decide)

variable {line : Utf16Text}

theorem strip_around {text : Utf16Text} (hline : BetweenMarks line text) :
    Becomes P Has line text := by
  obtain ⟨opening, closing, rfl, ho, hc⟩ := hline
  intro h
  obtain ⟨hPrest, hrest⟩ := hP.strip ho h
  obtain ⟨hPtext, htext⟩ := hP.strip_end hc hPrest
  exact ⟨hPtext, fun hhas => htext (hrest hhas)⟩

/-- A word of two marks may go wherever it stands. -/
theorem becomes_without {r : Regex} {u v : ℕ} (hu : isMark u = true)
    (hv : isMark v = true) (hr : r = literalThen [u, v] empty) (text : Utf16Text) :
    Becomes P Has text (replaceAll id r text []) := by
  rw [replaceAll_eq]
  refine hP.replaceAllWith fun m _ hmatch => ?_
  rw [hr] at hmatch
  obtain ⟨w, e, hw, hword, rfl, -⟩ := matches_literalThen hmatch
  rw [List.map_id, List.map_id] at hword
  refine ⟨[u], [], [v], by rw [hw, hword]; rfl, .inl ⟨by simp, fun x hx => ?_⟩,
    .inl ⟨by simp, fun x hx => ?_⟩, hP.becomes_plain List.not_mem_nil fun _ h =>
      absurd h List.not_mem_nil⟩
  · exact (List.mem_singleton.1 hx) ▸ hu
  · exact (List.mem_singleton.1 hx) ▸ hv

theorem headingText (text : Utf16Text) :
    Becomes P Has text (headingText text) :=
  (hP.becomes_without (u := 0x2a) (v := 0x2a) (by decide) (by decide) (by decide +kernel)
    text).trans (hP.becomes_without (u := 0x5f) (v := 0x5f) (by decide) (by decide)
      (by decide +kernel) _)

theorem bulletContent (rest : Utf16Text) :
    Becomes P Has rest (bulletContent rest) := by
  rw [Slack.bulletContent]
  cases htask : exec id taskPattern rest with
  | none => exact fun h => ⟨h, id⟩
  | some m =>
    obtain ⟨opening, x, gap, hrest, ho, hx, hg⟩ := task_spec htask
    intro h
    have hboxes : ∀ box ∈ [utf16 "☐", utf16 "☑"], ∀ u ∈ box ++ [0x20], isPlain u = true := by
      decide
    have hbox : (if groupOf m rest 1 = [0x20] then utf16 "☐" else utf16 "☑") ∈
        [utf16 "☐", utf16 "☑"] := by
      split_ifs
      · exact List.mem_cons_self
      · exact List.mem_cons_of_mem _ List.mem_cons_self
    -- the letter in the box is no mark, but a bracket stands behind it
    have hletter : isPlain x = true ∧ codeOpen ≠ x := by
      rcases hx with rfl | rfl | rfl <;> decide
    have hclose : ∀ u ∈ 0x5d :: gap, isMark u = true := by
      intro u hu
      rcases List.mem_cons.1 hu with rfl | hu
      · decide
      · exact hg u hu
    have hsplit : P (groupOf m rest 2) ∧ (Has rest → Has (groupOf m rest 2)) := by
      generalize groupOf m rest 2 = text at hrest
      rw [hrest] at h ⊢
      obtain ⟨hPbox, hbox⟩ := hP.strip ho h
      have hcut : IsCut (0x5d :: gap) := .inl ⟨List.cons_ne_nil _ _, hclose⟩
      obtain ⟨hPx, hPcut, hPtext⟩ := hP.cuts (a := [x]) hcut hPbox
      refine ⟨hPtext, fun hhas => ?_⟩
      have hparts : Has ([x] ++ ((0x5d :: gap) ++ text)) := hbox hhas
      rw [hP.has_append hPx (hP.append hPcut hPtext), hP.has_append hPcut hPtext] at hparts
      rcases hparts with hhas | hhas | hhas
      · exact absurd hhas (hP.not_has fun hmem => hletter.2 (List.mem_singleton.1 hmem))
      · exact absurd hhas (hP.not_has_of_isCut hcut)
      · exact hhas
    have hshown : ∀ box text : Utf16Text, box ++ 0x20 :: text = (box ++ [0x20]) ++ (text ++ []) :=
      fun box text => by rw [List.append_nil, List.append_assoc]; rfl
    change P (_ ++ 0x20 :: _) ∧ (Has rest → Has (_ ++ 0x20 :: _))
    rw [hshown]
    obtain ⟨hPout, hout⟩ := hP.becomes_around (hboxes _ hbox)
      (fun _ h => absurd h List.not_mem_nil) hsplit.1
    exact ⟨hPout, fun hhas => hout (hsplit.2 hhas)⟩

/-- The text of a quoted line. -/
theorem quoted {m : Match}
    (hquote : exec id quotePattern line = some m) : Becomes P Has line (groupOf m line 1) := by
  obtain ⟨sp, gap, hline, hsp, hgap⟩ := quote_spec hquote
  intro h
  generalize groupOf m line 1 = text at hline ⊢
  rw [hline] at h ⊢
  have hentity : utf16 "&gt;" ∈ entities := by decide
  obtain ⟨hPquote, hrest⟩ := hP.strip hsp h
  obtain ⟨-, hPrest⟩ := hP.cutEntity (a := []) hentity hPquote
  obtain ⟨hPtext, htext⟩ := hP.strip hgap hPrest
  refine ⟨hPtext, fun hhas => htext ?_⟩
  exact ((hP.has_append (hP.entity hentity) hPrest).1 (hrest hhas)).resolve_left
    (hP.not_has_of_isCut (.inr hentity))

/-- What a line becomes. -/
theorem convertBlockLine (h : P line) :
    (∀ x ∈ convertBlockLine line, P x) ∧ (Has line → ∃ x ∈ convertBlockLine line, Has x) := by
  have hone : ∀ {x : Utf16Text}, P x → (Has line → Has x) →
      (∀ y ∈ [x], P y) ∧ (Has line → ∃ y ∈ [x], Has y) := fun hx hhas =>
    ⟨fun y hy => (List.mem_singleton.1 hy) ▸ hx, fun hl => ⟨_, List.mem_cons_self, hhas hl⟩⟩
  have hnone : ¬ Has line → (∀ y ∈ ([] : List Utf16Text), P y) ∧
      (Has line → ∃ y ∈ ([] : List Utf16Text), Has y) := fun hnot =>
    ⟨fun _ hy => absurd hy List.not_mem_nil, fun hhas => absurd hhas hnot⟩
  rw [Slack.convertBlockLine]
  split_ifs with hrule
  · exact hnone (hP.not_has fun hopen => absurd (isMark_of_rule hrule _ hopen) (by decide))
  cases hheading : exec id headingPattern line with
  | some m =>
    obtain ⟨hPtext, htext⟩ := ((hP.strip_around (heading_spec hheading)).trans
      (hP.headingText _)) h
    dsimp only
    split_ifs with hlength
    · have hmarker : ∀ u ∈ [bold], isPlain u = true := by decide
      obtain ⟨hPbold, hbold⟩ := hP.becomes_around hmarker hmarker hPtext
      exact hone hPbold fun hhas => hbold (htext hhas)
    · refine hnone fun hhas => hP.not_has (w := []) List.not_mem_nil ?_
      have hempty := List.length_eq_zero_iff.1 (Nat.eq_zero_of_not_pos hlength)
      exact hempty ▸ htext hhas
  | none =>
    cases hquote : exec id quotePattern line with
    | some m =>
      obtain ⟨hPtext, htext⟩ := hP.quoted hquote h
      have hmark : ∀ u ∈ utf16 "> ", isPlain u = true := by decide
      obtain ⟨hPquote, hhas⟩ := hP.becomes_around hmark (fun _ hu => absurd hu List.not_mem_nil)
        hPtext
      rw [List.append_nil] at hPquote hhas
      exact hone hPquote fun hl => hhas (htext hl)
    | none =>
      cases hbullet : exec id bulletPattern line with
      | some m =>
        obtain ⟨hindent, hline⟩ := bullet_spec hbullet
        obtain ⟨hPcontent, hcontent⟩ := ((hP.strip_around hline).trans (hP.bulletContent _)) h
        have hbullets : ∀ marker ∈ [] :: bullets, ∀ u ∈ marker, isPlain u = true := by decide
        dsimp only
        set marker := bullets.getD (min (indentWidth (groupOf m line 1) / 2) (bullets.length - 1))
          [] with hmarker
        have hopening : ∀ u ∈ groupOf m line 1 ++ (marker ++ [0x20]), isPlain u = true := by
          intro u hu
          rcases List.mem_append.1 hu with hu | hu
          · exact isPlain_of_isMark (hindent u hu)
          · rcases List.mem_append.1 hu with hu | hu
            · refine hbullets marker ?_ u hu
              rw [hmarker, List.getD_eq_getElem?_getD]
              cases hget : bullets[min (indentWidth (groupOf m line 1) / 2)
                (bullets.length - 1)]? with
              | none => exact List.mem_cons_self
              | some x => exact List.mem_cons_of_mem _ (List.mem_of_getElem? hget)
            · rw [List.mem_singleton.1 hu]
              decide
        obtain ⟨hPbullet, hhas⟩ := hP.becomes_around hopening
          (fun _ hu => absurd hu List.not_mem_nil) hPcontent
        simp only [List.append_nil, List.append_assoc, List.singleton_append] at hPbullet hhas
        exact hone hPbullet fun hl => hhas (hcontent hl)
      | none => exact hone h id

/-- The lines of a text. -/
theorem lines {lines : List Utf16Text} (hne : lines ≠ [])
    (h : P ([0x0a].intercalate lines)) : (∀ line ∈ lines, P line) ∧
      (Has ([0x0a].intercalate lines) → ∃ line ∈ lines, Has line) := by
  induction lines with
  | nil => exact absurd rfl hne
  | cons line rest ih =>
    cases rest with
    | nil =>
      rw [List.intercalate_singleton] at h ⊢
      exact ⟨fun l hl => (List.mem_singleton.1 hl) ▸ h,
        fun hhas => ⟨line, List.mem_cons_self, hhas⟩⟩
    | cons next rest =>
      rw [List.intercalate_cons_cons, List.append_assoc] at h ⊢
      have hcut : IsCut [0x0a] := .inl (by decide)
      obtain ⟨hline, hPend, hrest⟩ := hP.cuts hcut h
      obtain ⟨hlines, hhas⟩ := ih (List.cons_ne_nil _ _) hrest
      refine ⟨fun l hl => (List.mem_cons.1 hl).elim (fun heq => heq ▸ hline) (hlines l),
        fun hl => ?_⟩
      rw [hP.has_append hline (hP.append hPend hrest), hP.has_append hPend hrest] at hl
      rcases hl with hl | hl | hl
      · exact ⟨line, List.mem_cons_self, hl⟩
      · exact absurd hl (hP.not_has_of_isCut hcut)
      · obtain ⟨l, hmem, hl⟩ := hhas hl
        exact ⟨l, List.mem_cons_of_mem _ hmem, hl⟩

/-- Joined lines. -/
theorem joined {lines : List Utf16Text} (h : ∀ line ∈ lines, P line) :
    P ([0x0a].intercalate lines) ∧
      ∀ line ∈ lines, Has line → Has ([0x0a].intercalate lines) := by
  induction lines with
  | nil => exact ⟨hP.plain fun _ hu => absurd hu List.not_mem_nil,
      fun _ hl => absurd hl List.not_mem_nil⟩
  | cons line rest ih =>
    have hline := h line List.mem_cons_self
    cases rest with
    | nil =>
      rw [List.intercalate_singleton]
      exact ⟨hline, fun l hl hhas => (List.mem_singleton.1 hl) ▸ hhas⟩
    | cons next rest =>
      obtain ⟨hrest, hhas⟩ := ih fun l hl => h l (List.mem_cons_of_mem _ hl)
      have hPend : P [0x0a] := hP.plain (by decide)
      rw [List.intercalate_cons_cons, List.append_assoc]
      refine ⟨hP.append hline (hP.append hPend hrest), fun l hl hl' => ?_⟩
      rw [hP.has_append hline (hP.append hPend hrest), hP.has_append hPend hrest]
      rcases List.mem_cons.1 hl with rfl | hl
      · exact .inl hl'
      · exact .inr (.inr (hhas l hl hl'))

/-- Lines that are converted one by one. -/
theorem converted (text : Utf16Text) :
    Becomes P Has text
      ([0x0a].intercalate ((text.splitOn 0x0a).flatMap Slack.convertBlockLine)) := by
  intro h
  have hlines := hP.lines (List.splitOn_ne_nil 0x0a text)
  rw [List.intercalate_splitOn] at hlines
  obtain ⟨hP', hhas⟩ := hlines h
  have hconverted : ∀ x ∈ (text.splitOn 0x0a).flatMap Slack.convertBlockLine, P x := by
    intro x hx
    obtain ⟨line, hline, hx⟩ := List.mem_flatMap.1 hx
    exact (hP.convertBlockLine (hP' line hline)).1 x hx
  obtain ⟨hPout, hout⟩ := hP.joined hconverted
  refine ⟨hPout, fun hl => ?_⟩
  obtain ⟨line, hline, hl⟩ := hhas hl
  obtain ⟨x, hx, hl⟩ := (hP.convertBlockLine (hP' line hline)).2 hl
  exact hout x (List.mem_flatMap.2 ⟨line, hline, hx⟩) hl

/-- Three line breaks and more become two. -/
theorem collapsed (text : Utf16Text) :
    Becomes P Has text (replaceAll id (rx "\\n\x7b3,\x7d") text [0x0a, 0x0a]) := by
  rw [replaceAll_eq]
  refine hP.replaceAllWith fun m _ hmatch => ?_
  have hform : rx "\\n\x7b3,\x7d" =
      .seq (iter (units ⟨[(0x0a, 0x0a)], false⟩) 3 none true) empty := by decide +kernel
  rw [hform] at hmatch
  obtain ⟨w, e, _, hw, hbreaks, rfl, -⟩ := hmatch
  obtain ⟨hthree, -, -, -⟩ := matches_iter_units hbreaks
  obtain ⟨hmarks, -⟩ := isMark_of_iter (by decide) rfl hbreaks
  rw [hw, List.append_nil]
  rcases w with _ | ⟨u, _ | ⟨v, w⟩⟩
  · exact absurd hthree (by decide)
  · exact absurd hthree (by simp)
  · refine ⟨[u], [], v :: w, rfl, .inl ⟨by simp, fun x hx => ?_⟩, .inl ⟨by simp, fun x hx => ?_⟩,
      hP.becomes_plain List.not_mem_nil (by decide)⟩
    · exact (List.mem_singleton.1 hx) ▸ hmarks u List.mem_cons_self
    · exact hmarks x (List.mem_cons_of_mem _ hx)

/-- A mark that becomes a word of plain units. -/
theorem replacedUnit {u : ℕ} (hu : isMark u = true) {word : Utf16Text}
    (hword : ∀ v ∈ word, isPlain v = true) (text : Utf16Text) :
    Becomes P Has text (replaceUnit u word text) := by
  induction hn : text.length using Nat.strong_induction_on generalizing text with
  | _ n ih =>
    intro h
    by_cases hmem : u ∈ text
    · obtain ⟨a, b, rfl, ha⟩ := List.eq_append_cons_of_mem hmem
      have hout : replaceUnit u word (a ++ u :: b) = a ++ (word ++ replaceUnit u word b) := by
        rw [replaceUnit_append, replaceUnit_of_not_mem ha]
        exact congrArg (a ++ ·) (List.flatMap_cons.trans (by rw [if_pos rfl]; rfl))
      have hlt : b.length < n := by
        rw [← hn, List.length_append, List.length_cons]
        omega
      have hcut : IsCut [u] := .inl ⟨by simp, fun v hv => (List.mem_singleton.1 hv) ▸ hu⟩
      obtain ⟨hPa, hPu, hPb⟩ := hP.cuts hcut h
      obtain ⟨hPrest, hrest⟩ := ih _ hlt b rfl hPb
      have hPword := hP.plain hword
      rw [hout, ← List.singleton_append, hP.has_append hPa (hP.append hPu hPb),
        hP.has_append hPu hPb, hP.has_append hPa (hP.append hPword hPrest),
        hP.has_append hPword hPrest]
      refine ⟨hP.append hPa (hP.append hPword hPrest), ?_⟩
      rintro (hl | hl | hl)
      · exact .inl hl
      · exact absurd hl (hP.not_has_of_isCut hcut)
      · exact .inr (.inr (hrest hl))
    · rw [replaceUnit_of_not_mem hmem]
      exact ⟨h, id⟩

/-- **All stages between putting code aside and putting it back.** -/
theorem rewritten (markdown : Utf16Text) (h : P (escapeSlackText (stashed markdown).1))
    (hkeeps : ((∀ m ∈ matchAll id imagePattern (Slack.autolinked (blocks markdown)),
        KeepsCode (Slack.autolinked (blocks markdown)) m) ∧
      ∀ m ∈ matchAll id linkPattern (Slack.imaged (Slack.autolinked (blocks markdown))),
        KeepsCode (Slack.imaged (Slack.autolinked (blocks markdown))) m) ∨ ∀ w, ¬ Has w) :
    P (Slack.rewritten markdown) ∧
      (Has (escapeSlackText (stashed markdown).1) → Has (Slack.rewritten markdown)) :=
  (((((hP.converted _).trans (hP.collapsed _)).trans (hP.autolinked _)).trans
    (hP.imaged (hkeeps.imp And.left id))).trans
      (hP.linked (hkeeps.imp And.right id))).trans (hP.emphasized _) h

end Carries

end Munin.Conversations.Slack
