import Munin.Foundations.Regex

/-!
# What a regular expression matches

The search for a match goes from position to position. What it finds is described by words: the text
before the match, the match, the text behind it, and what the groups have matched.

* **`Regex.Matches`** — an expression matches a word between two texts.
* **`found_of_mem_runs`** — what the search finds is a match in this sense.
* **`matches_of_execFrom`**, **`exists_matches_of_test`** — so are the results of `exec` and of
  `test`.
* **`replaceAllWith`** — replacing the matches by what a function makes of them, with its induction
  rule `replaceAllWith_induction`.
-/

namespace Foundations

/-! ### Slices -/

variable {i j : ℕ}

/-- A slice is cut in two. -/
theorem sliceUnits_append (text : Utf16Text) {k : ℕ} (hij : i ≤ j) (hjk : j ≤ k) :
    sliceUnits text i k = sliceUnits text i j ++ sliceUnits text j k := by
  have hk : k - i = (j - i) + (k - j) := by omega
  rw [sliceUnits, sliceUnits, sliceUnits, hk, List.take_add, List.drop_drop]
  congr 3
  omega

/-- A text is cut at a position. -/
theorem drop_eq_slice_append (text : Utf16Text) (hij : i ≤ j) :
    text.drop i = sliceUnits text i j ++ text.drop j := by
  have hj : j = i + (j - i) := by omega
  conv_rhs => rw [hj, sliceUnits, Nat.add_sub_cancel_left, ← List.drop_drop]
  exact (List.take_append_drop _ _).symm

theorem take_eq_append_slice (text : Utf16Text) (hij : i ≤ j) :
    text.take j = text.take i ++ sliceUnits text i j := by
  have hj : j = i + (j - i) := by omega
  conv_lhs => rw [hj, List.take_add]
  rfl

theorem sliceUnits_self (text : Utf16Text) (i : ℕ) : sliceUnits text i i = [] := by
  rw [sliceUnits, Nat.sub_self, List.take_zero]

theorem sliceUnits_one {text : Utf16Text} (hi : i < text.length) :
    sliceUnits text i (i + 1) = [unitAt text i] := by
  rw [sliceUnits, Nat.add_sub_cancel_left, List.drop_eq_getElem_cons hi, List.take_succ_cons,
    List.take_zero, unitAt_eq_getElem hi]

namespace Regex

/-- What groups have matched. -/
abbrev Captured := List (ℕ × Utf16Text)

/-- What is said of a match: the text before it, its word, the text behind it, and what the groups
have matched before and behind it. -/
abbrev Reading := Utf16Text → Utf16Text → Utf16Text → Captured → Captured → Prop

/-- Some turns of an iteration, each of which forgets what some groups have matched. -/
inductive Turns (P : Reading) (groups : List ℕ) : ℕ → Reading
  | none {before after : Utf16Text} {c : Captured} : Turns P groups 0 before [] after c c
  | turn {n : ℕ} {before w w' after : Utf16Text} {c c' c'' : Captured}
      (first : P before w (w' ++ after) (c.filter fun g => !groups.contains g.1) c')
      (rest : Turns P groups n (before ++ w) w' after c' c'') :
      Turns P groups (n + 1) before (w ++ w') after c c''

/-- What an expression matches. -/
def Matches (canonicalize : ℕ → ℕ) : Regex → Reading
  | empty, _, w, _, c, c' => w = [] ∧ c' = c
  | units k, _, w, _, c, c' => ∃ u, w = [u] ∧ k.has canonicalize u = true ∧ c' = c
  | seq r s, before, w, after, c, c' => ∃ w₁ w₂ c₁, w = w₁ ++ w₂ ∧
      Matches canonicalize r before w₁ (w₂ ++ after) c c₁ ∧
      Matches canonicalize s (before ++ w₁) w₂ after c₁ c'
  | alt r s, before, w, after, c, c' =>
      Matches canonicalize r before w after c c' ∨ Matches canonicalize s before w after c c'
  | iter r least most _, before, w, after, c, c' => ∃ n, least ≤ n ∧ (∀ m ∈ most, n ≤ m) ∧
      Turns (Matches canonicalize r) r.groups n before w after c c'
  | group n r, before, w, after, c, c' => ∃ c₁, Matches canonicalize r before w after c c₁ ∧
      c' = (n, w) :: c₁.filter fun g => g.1 != n
  | start, before, w, _, c, c' => before = [] ∧ w = [] ∧ c' = c
  | stop, _, w, after, c, c' => after = [] ∧ w = [] ∧ c' = c
  | boundary, _, w, _, c, c' => w = [] ∧ c' = c
  | ahead true _, _, w, _, c, c' => w = [] ∧ c' = c
  | ahead false r, before, w, after, c, c' => w = [] ∧ ∃ w' after', after = w' ++ after' ∧
      Matches canonicalize r before w' after' c c'
  | behind negated k, before, w, _, c, c' => w = [] ∧ c' = c ∧
      (before.getLast?.any fun u => k.has canonicalize u) = !negated
  | backref n, _, w, _, c, c' => c' = c ∧
      w.map canonicalize = ((c.lookup n).getD []).map canonicalize

/-- The words of what groups have matched. -/
def wordsOf (text : Utf16Text) (captures : List (ℕ × ℕ × ℕ)) : Captured :=
  captures.map fun c => (c.1, sliceUnits text c.2.1 c.2.2)

theorem wordsOf_filter (text : Utf16Text) (captures : List (ℕ × ℕ × ℕ)) (p : ℕ → Bool) :
    wordsOf text (captures.filter fun c => p c.1) = (wordsOf text captures).filter fun g => p g.1 :=
  (List.filter_map (f := fun c : ℕ × ℕ × ℕ => (c.1, sliceUnits text c.2.1 c.2.2))
    (p := fun g => p g.1) (l := captures)).symm

theorem captured_eq_lookup (m : Match) (text : Utf16Text) (n : ℕ) :
    m.captured text n = (wordsOf text m.captures).lookup n := by
  unfold Match.captured wordsOf
  induction m.captures with
  | nil => rfl
  | cons c captures ih =>
    rw [List.map_cons, List.lookup_cons, List.lookup_cons]
    cases n == c.1 with
    | true => rfl
    | false => exact ih

/-! ### What the search finds -/

variable {canonicalize : ℕ → ℕ} {text : Utf16Text}

/-- A state of the search is behind another one, and what is between them is a match. -/
def Found (canonicalize : ℕ → ℕ) (text : Utf16Text) (r : Regex) (s t : State) : Prop :=
  s.pos ≤ t.pos ∧ t.pos ≤ text.length ∧
    Matches canonicalize r (text.take s.pos) (sliceUnits text s.pos t.pos) (text.drop t.pos)
      (wordsOf text s.captures) (wordsOf text t.captures)

variable {r : Regex} {greedy : Bool} {i u n : ℕ} {m : Match} {k : UnitClass}
  {before w after : Utf16Text} {c c' : Captured}

/-- The turns of an iteration. -/
theorem found_of_mem_turns (hr : ∀ s t, s.pos ≤ text.length → t ∈ runs canonicalize text r s →
      Found canonicalize text r s t) {fuel : ℕ} :
    ∀ {least : ℕ} {most : Option ℕ} {s t : State}, s.pos ≤ text.length →
      t ∈ turns (fun s => runs canonicalize text r (s.forget r.groups)) greedy fuel least most s →
      s.pos ≤ t.pos ∧ t.pos ≤ text.length ∧ ∃ n, least ≤ n ∧ (∀ m ∈ most, n ≤ m) ∧
        Turns (Matches canonicalize r) r.groups n (text.take s.pos) (sliceUnits text s.pos t.pos)
          (text.drop t.pos) (wordsOf text s.captures) (wordsOf text t.captures) := by
  induction fuel with
  | zero => exact fun _ h => absurd h List.not_mem_nil
  | succ fuel ih =>
    intro least most s t hs h
    have hmore : t ∈ (if most = some 0 then [] else
        ((runs canonicalize text r (s.forget r.groups)).filter fun t =>
          0 < least || s.pos < t.pos).flatMap
            (turns (fun s => runs canonicalize text r (s.forget r.groups)) greedy fuel (least - 1)
              (most.map (· - 1)))) ∨ (least = 0 ∧ t = s) := by
      rw [turns] at h
      by_cases hleast : 0 < least
      · rw [if_pos hleast] at h
        exact .inl h
      · rw [if_neg hleast] at h
        cases greedy with
        | true =>
          rcases List.mem_append.1 h with h | h
          · exact .inl h
          · exact .inr ⟨Nat.eq_zero_of_not_pos hleast, List.mem_singleton.1 h⟩
        | false =>
          rcases List.mem_cons.1 h with h | h
          · exact .inr ⟨Nat.eq_zero_of_not_pos hleast, h⟩
          · exact .inl h
    rcases hmore with hmore | ⟨rfl, rfl⟩
    · split_ifs at hmore with hmost
      · cases hmore
      · obtain ⟨u, hu, ht⟩ := List.mem_flatMap.1 hmore
        obtain ⟨hsu, hulen, hfirst⟩ := hr (s.forget r.groups) u hs (List.mem_filter.1 hu).1
        obtain ⟨hut, htlen, n, hleast, hmax, hrest⟩ := ih hulen ht
        refine ⟨hsu.trans hut, htlen, n + 1, by omega, fun m hm => ?_, ?_⟩
        · subst hm
          have hle := hmax (m - 1) rfl
          have hpos : m ≠ 0 := fun h0 => hmost (congrArg some h0)
          omega
        · have hcut : sliceUnits text s.pos t.pos =
              sliceUnits text s.pos u.pos ++ sliceUnits text u.pos t.pos :=
            sliceUnits_append text hsu hut
          rw [hcut]
          refine .turn ?_ (take_eq_append_slice text hsu ▸ hrest)
          have hforget : wordsOf text (s.forget r.groups).captures =
              (wordsOf text s.captures).filter fun g => !r.groups.contains g.1 :=
            wordsOf_filter text s.captures fun g => !r.groups.contains g
          rw [← drop_eq_slice_append text hut, ← hforget]
          exact hfirst
    · refine ⟨Nat.le_refl _, hs, 0, Nat.le_refl 0, fun m _ => Nat.zero_le m, ?_⟩
      rw [sliceUnits_self]
      exact .none

/-- **What the search finds is a match.** -/
theorem found_of_mem_runs : ∀ {s t : State}, s.pos ≤ text.length → t ∈ runs canonicalize text r s →
      Found canonicalize text r s t := by
  -- Where nothing is consumed, the word is empty and the captures stay.
  have hstay : ∀ {s : State} {r : Regex}, s.pos ≤ text.length →
      Matches canonicalize r (text.take s.pos) [] (text.drop s.pos) (wordsOf text s.captures)
        (wordsOf text s.captures) → Found canonicalize text r s s := fun hs h =>
    ⟨Nat.le_refl _, hs, (sliceUnits_self text _).symm ▸ h⟩
  induction r with
  | empty =>
    intro s t hs h
    obtain rfl := List.mem_singleton.1 h
    exact hstay hs ⟨rfl, rfl⟩
  | units k =>
    intro s t hs h
    rw [runs, List.mem_ite_nil_right, List.mem_singleton] at h
    obtain ⟨hk, rfl⟩ := h
    exact ⟨Nat.le_succ _, hk.1, unitAt text s.pos, sliceUnits_one hk.1, hk.2, rfl⟩
  | seq r q ihr ihq =>
    intro s t hs h
    obtain ⟨u, hu, ht⟩ := List.mem_flatMap.1 h
    obtain ⟨hsu, hulen, hfirst⟩ := ihr hs hu
    obtain ⟨hut, htlen, hrest⟩ := ihq hulen ht
    refine ⟨hsu.trans hut, htlen, _, _, wordsOf text u.captures, sliceUnits_append text hsu hut,
      ?_, ?_⟩
    · rw [← drop_eq_slice_append text hut]
      exact hfirst
    · rw [← take_eq_append_slice text hsu]
      exact hrest
  | alt r q ihr ihq =>
    intro s t hs h
    rcases List.mem_append.1 h with h | h
    · obtain ⟨hst, hlen, hmatch⟩ := ihr hs h
      exact ⟨hst, hlen, .inl hmatch⟩
    · obtain ⟨hst, hlen, hmatch⟩ := ihq hs h
      exact ⟨hst, hlen, .inr hmatch⟩
  | iter r least most greedy ih => exact fun hs h => found_of_mem_turns (fun _ _ => ih) hs h
  | group n r ih =>
    intro s t hs h
    obtain ⟨u, hu, rfl⟩ := List.mem_map.1 h
    obtain ⟨hsu, hulen, hmatch⟩ := ih hs hu
    refine ⟨hsu, hulen, _, hmatch, ?_⟩
    exact congrArg _ (wordsOf_filter text u.captures fun g => g != n)
  | start =>
    intro s t hs h
    rw [runs, List.mem_ite_nil_right, List.mem_singleton] at h
    obtain ⟨hpos, rfl⟩ := h
    exact hstay hs ⟨by rw [hpos, List.take_zero], rfl, rfl⟩
  | stop =>
    intro s t hs h
    rw [runs, List.mem_ite_nil_right, List.mem_singleton] at h
    obtain ⟨hpos, rfl⟩ := h
    exact hstay hs ⟨by rw [hpos, List.drop_length], rfl, rfl⟩
  | boundary =>
    intro s t hs h
    rw [runs, List.mem_ite_nil_right, List.mem_singleton] at h
    obtain ⟨-, rfl⟩ := h
    exact hstay hs ⟨rfl, rfl⟩
  | ahead negated r ih =>
    intro s t hs h
    rw [runs] at h
    split at h
    · rw [List.mem_ite_nil_right, List.mem_singleton] at h
      obtain ⟨rfl, rfl⟩ := h
      exact hstay hs ⟨rfl, rfl⟩
    · rename_i u us hruns
      rw [List.mem_ite_nil_left, List.mem_singleton] at h
      obtain ⟨hneg, rfl⟩ := h
      obtain rfl := Bool.eq_false_iff.2 hneg
      obtain ⟨hsu, hulen, hmatch⟩ := ih hs (hruns ▸ List.mem_cons_self)
      refine ⟨Nat.le_refl _, hs, sliceUnits_self text _, _, _, drop_eq_slice_append text hsu, ?_⟩
      exact hmatch
  | behind negated k =>
    intro s t hs h
    rw [runs, List.mem_ite_nil_right, List.mem_singleton] at h
    obtain ⟨hbehind, rfl⟩ := h
    refine hstay hs ⟨rfl, rfl, ?_⟩
    have hlast : ((text.take t.pos).getLast?.any fun u => k.has canonicalize u) =
        (decide (0 < t.pos) && k.has canonicalize (unitAt text (t.pos - 1))) := by
      cases hpos : t.pos with
      | zero => rfl
      | succ i =>
        have hi : i < text.length := by omega
        rw [List.take_succ_eq_append_getElem hi, List.getLast?_concat, Option.any_some,
          Nat.add_sub_cancel, unitAt_eq_getElem hi, decide_eq_true (Nat.succ_pos i), Bool.true_and]
    rw [hlast]
    exact Bool.eq_not_iff.2 (bne_iff_ne.1 hbehind)
  | backref n =>
    intro s t hs h
    rw [runs] at h
    have hlookup : (wordsOf text s.captures).lookup n =
        (s.captures.lookup n).map fun c => sliceUnits text c.1 c.2 :=
      (captured_eq_lookup ⟨s.pos, s.pos, s.captures⟩ text n).symm
    split at h
    · rename_i hnone
      obtain rfl := List.mem_singleton.1 h
      refine hstay hs ⟨rfl, ?_⟩
      rw [hlookup, hnone]
      rfl
    · rename_i c hsome
      simp only [List.mem_ite_nil_right, List.mem_singleton] at h
      obtain ⟨hword, rfl⟩ := h
      have hlength := congrArg List.length hword
      rw [List.length_map, List.length_map, sliceUnits, List.length_take,
        List.length_drop] at hlength
      refine ⟨Nat.le_add_right _ _, by simp only; omega, rfl, ?_⟩
      rw [hlookup, hsome]
      exact hword

/-- What `exec` finds is a match. -/
theorem matches_of_execFrom (h : execFrom canonicalize r text i = some m) :
    i ≤ m.start ∧ m.start ≤ m.stop ∧ m.stop ≤ text.length ∧
      Matches canonicalize r (text.take m.start) (sliceUnits text m.start m.stop)
        (text.drop m.stop) [] (wordsOf text m.captures) := by
  obtain ⟨start, hstart, hhead⟩ := List.exists_of_findSome?_eq_some h
  obtain ⟨t, ht, rfl⟩ := Option.map_eq_some_iff.1 hhead
  obtain ⟨hi, hlen⟩ := List.mem_range'_1.1 hstart
  exact ⟨hi, found_of_mem_runs (by simp only; omega) (List.mem_of_head? ht)⟩

/-- What `test` accepts has a match. -/
theorem exists_matches_of_test (h : r.test canonicalize text = true) :
    ∃ before w after c, text = before ++ (w ++ after) ∧
      Matches canonicalize r before w after [] c := by
  obtain ⟨m, hm⟩ := Option.isSome_iff_exists.1 h
  obtain ⟨-, hstop, -, hmatch⟩ := matches_of_execFrom hm
  refine ⟨_, _, _, _, ?_, hmatch⟩
  rw [← drop_eq_slice_append text hstop, List.take_append_drop]

/-! ### Expressions of units -/

/-- A class has a unit if one of its ranges has it, or none if the class is negated. -/
theorem has_id (k : UnitClass) (u : ℕ) :
    k.has id u = ((k.ranges.any fun r => decide (r.1 ≤ u ∧ u ≤ r.2)) != k.negated) := by
  unfold UnitClass.has
  congr 2
  funext r
  rw [Bool.eq_iff_iff, List.any_eq_true, decide_eq_true_eq]
  constructor
  · rintro ⟨v, hv, heq⟩
    obtain rfl : v = u := beq_iff_eq.1 heq
    have hrange := List.mem_range'_1.1 hv
    omega
  · intro hu
    exact ⟨u, List.mem_range'_1.2 (by omega), beq_self_eq_true u⟩

/-- What holds of all units of the ranges holds of the units of the class. -/
theorem all_of_has {p : ℕ → Bool}
    (hp : (k.ranges.all fun r => (List.range' r.1 (r.2 + 1 - r.1)).all p) = true)
    (hk : k.negated = false) (hu : k.has id u = true) : p u = true := by
  rw [UnitClass.has, hk, Bool.bne_false, List.any_eq_true] at hu
  obtain ⟨r, hr, hu⟩ := hu
  obtain ⟨v, hv, heq⟩ := List.any_eq_true.1 hu
  obtain rfl : v = u := beq_iff_eq.1 heq
  exact List.all_eq_true.1 (List.all_eq_true.1 hp r hr) v hv

/-- The class of a unit has the units that the search takes for the same. -/
theorem has_single (v u : ℕ) :
    UnitClass.has canonicalize ⟨[(v, v)], false⟩ u = true ↔ canonicalize v = canonicalize u := by
  have hrange : List.range' v (v + 1 - v) = [v] := by
    rw [Nat.add_sub_cancel_left]
    rfl
  simp only [UnitClass.has, hrange, List.any_cons, List.any_nil, Bool.or_false, Bool.bne_false,
    beq_iff_eq]

/-- Some units one after the other, and an expression behind them. -/
def literalThen (word : Utf16Text) (r : Regex) : Regex :=
  word.foldr (fun u r => seq (units ⟨[(u, u)], false⟩) r) r

theorem matches_literalThen {word : Utf16Text}
    (h : Matches canonicalize (literalThen word r) before w after c c') :
    ∃ w₁ w₂, w = w₁ ++ w₂ ∧ w₁.map canonicalize = word.map canonicalize ∧
      Matches canonicalize r (before ++ w₁) w₂ after c c' := by
  induction word generalizing before w with
  | nil => exact ⟨[], w, rfl, rfl, (List.append_nil before).symm ▸ h⟩
  | cons v word ih =>
    obtain ⟨_, w', _, rfl, ⟨u, rfl, hu, rfl⟩, hrest⟩ := h
    obtain ⟨w₁, w₂, rfl, hword, hr⟩ := ih hrest
    refine ⟨u :: w₁, w₂, rfl, ?_, ?_⟩
    · rw [List.map_cons, List.map_cons, hword, (has_single v u).1 hu]
    · rw [List.append_assoc] at hr
      exact hr

/-- An expression that matches only the empty word, and captures nothing. -/
def ZeroWidth (canonicalize : ℕ → ℕ) (r : Regex) : Prop :=
  ∀ before w after c c', Matches canonicalize r before w after c c' → w = [] ∧ c' = c

theorem zeroWidth_empty : ZeroWidth canonicalize empty := fun _ _ _ _ _ h => h

theorem zeroWidth_ahead_units (negated : Bool) (k : UnitClass) :
    ZeroWidth canonicalize (ahead negated (seq (units k) empty)) := by
  intro before w after c c' h
  cases negated with
  | true => exact h
  | false =>
    obtain ⟨hw, _, _, _, _, _, _, _, ⟨_, _, _, rfl⟩, _, hc⟩ := h
    exact ⟨hw, hc⟩

theorem ZeroWidth.seq {s : Regex} (hr : ZeroWidth canonicalize r)
    (hs : ZeroWidth canonicalize s) : ZeroWidth canonicalize (seq r s) := by
  rintro before w after c c' ⟨w₁, w₂, c₁, rfl, h₁, h₂⟩
  obtain ⟨rfl, rfl⟩ := hr _ _ _ _ _ h₁
  obtain ⟨rfl, rfl⟩ := hs _ _ _ _ _ h₂
  exact ⟨rfl, rfl⟩

/-- A group before a literal captures the word before it. -/
theorem matches_group_literal {tail : Regex} {closing : Utf16Text} (htail : ZeroWidth id tail)
    (h : Matches id (.seq (group n r) (literalThen closing tail)) before w after c c') :
    ∃ body, w = body ++ closing ∧ c'.lookup n = some body ∧
      ∃ c₁, Matches id r before body (closing ++ after) c c₁ := by
  obtain ⟨body, x, c₂, rfl, ⟨c₁, hr, rfl⟩, hx⟩ := h
  obtain ⟨y, z, rfl, hclosing, hz⟩ := matches_literalThen hx
  obtain ⟨rfl, rfl⟩ := htail _ _ _ _ _ hz
  rw [List.map_id, List.map_id] at hclosing
  rw [List.append_nil, hclosing] at hr ⊢
  exact ⟨body, rfl, by rw [List.lookup_cons, beq_self_eq_true], c₁, hr⟩

/-- **A group between two literals** captures the word between them. -/
theorem matches_delimited {look tail : Regex} {opening closing : Utf16Text}
    (hlook : ZeroWidth id look) (htail : ZeroWidth id tail)
    (h : Matches id (literalThen opening (.seq look (.seq (group n r) (literalThen closing tail))))
      before w after c c') :
    ∃ body, w = opening ++ (body ++ closing) ∧ c'.lookup n = some body := by
  obtain ⟨w₁, w₂, rfl, hopening, u, v, c₁, rfl, hu, hv⟩ := matches_literalThen h
  obtain ⟨rfl, rfl⟩ := hlook _ _ _ _ _ hu
  obtain ⟨body, rfl, hbody, -⟩ := matches_group_literal htail hv
  rw [List.map_id, List.map_id] at hopening
  exact ⟨body, by rw [hopening, List.nil_append], hbody⟩

/-- An iteration of at most one turn. -/
theorem matches_iter_one (hgroups : r.groups = [])
    (h : Matches canonicalize (iter r 0 (some 1) greedy) before w after c c') :
    w = [] ∧ c' = c ∨ Matches canonicalize r before w after c c' := by
  obtain ⟨n, -, hone, hturns⟩ := h
  have hle : n ≤ 1 := hone 1 rfl
  cases hturns with
  | none => exact .inl ⟨rfl, rfl⟩
  | turn first rest =>
    obtain rfl := Nat.eq_zero_of_le_zero (Nat.le_of_succ_le_succ hle)
    cases rest
    rw [List.append_nil]
    refine .inr ?_
    have hforget : (c.filter fun g => !r.groups.contains g.1) = c :=
      List.filter_eq_self.2 fun g _ => by rw [hgroups]; rfl
    rw [hforget] at first
    exact first

/-- A turn over a class is a unit of the class. -/
theorem turns_units
    (h : Turns (Matches canonicalize (units k)) (units k).groups n before w after c c') :
    w.length = n ∧ (∀ u ∈ w, k.has canonicalize u = true) ∧ c' = c := by
  induction h with
  | none => exact ⟨rfl, fun _ h => absurd h List.not_mem_nil, rfl⟩
  | turn first _ ih =>
    obtain ⟨u, rfl, hu, rfl⟩ := first
    obtain ⟨hlength, hunits, rfl⟩ := ih
    refine ⟨by rw [List.length_append, hlength, List.length_singleton, Nat.add_comm],
      fun v hv => ?_, ?_⟩
    · rcases List.mem_append.1 hv with hv | hv
      · exact (List.mem_singleton.1 hv) ▸ hu
      · exact hunits v hv
    · exact List.filter_eq_self.2 fun _ _ => rfl

/-- **An iteration of a class matches units of the class.** -/
theorem matches_iter_units {least : ℕ} {most : Option ℕ}
    (h : Matches canonicalize (iter (units k) least most greedy) before w after c c') :
    least ≤ w.length ∧ (∀ m ∈ most, w.length ≤ m) ∧ (∀ u ∈ w, k.has canonicalize u = true) ∧
      c' = c := by
  obtain ⟨n, hleast, hmost, hturns⟩ := h
  obtain ⟨rfl, hunits, hc⟩ := turns_units hturns
  exact ⟨hleast, hmost, hunits, hc⟩

/-- Whether all units that an expression can match have a property, as its classes show. -/
def only (p : ℕ → Bool) : Regex → Bool
  | units k => !k.negated && k.ranges.all fun r => (List.range' r.1 (r.2 + 1 - r.1)).all p
  | seq r s | alt r s => r.only p && s.only p
  | iter r _ _ _ | group _ r => r.only p
  | backref _ => false
  | _ => true

/-- **The units of a match** of such an expression have the property. -/
theorem all_of_only {p : ℕ → Bool} (hr : r.only p = true) :
    ∀ {before w after : Utf16Text} {c c' : Captured}, Matches id r before w after c c' →
      ∀ u ∈ w, p u = true := by
  have hnil : ∀ {w : Utf16Text}, w = [] → ∀ u ∈ w, p u = true := fun h u hu =>
    absurd (h ▸ hu) List.not_mem_nil
  induction r with
  | empty | boundary | behind => exact @fun _ _ _ _ _ h => hnil h.1
  | start | stop => exact @fun _ _ _ _ _ h => hnil h.2.1
  | ahead negated => cases negated <;> exact @fun _ _ _ _ _ h => hnil h.1
  | backref => cases hr
  | units k =>
    rw [only, Bool.and_eq_true, Bool.not_eq_true'] at hr
    rintro _ _ _ _ _ ⟨v, rfl, hv, -⟩ u hu
    obtain rfl := List.mem_singleton.1 hu
    exact all_of_has hr.2 hr.1 hv
  | seq r s ihr ihs =>
    rw [only, Bool.and_eq_true] at hr
    rintro _ _ _ _ _ ⟨w₁, w₂, c₁, rfl, h₁, h₂⟩ u hu
    exact (List.mem_append.1 hu).elim (ihr hr.1 h₁ u) (ihs hr.2 h₂ u)
  | alt r s ihr ihs =>
    rw [only, Bool.and_eq_true] at hr
    rintro _ _ _ _ _ (h | h)
    · exact ihr hr.1 h
    · exact ihs hr.2 h
  | iter r _ _ _ ih =>
    rintro _ _ _ _ _ ⟨n, -, -, hturns⟩
    induction hturns with
    | none => exact hnil rfl
    | turn first _ ihrest =>
      exact fun u hu => (List.mem_append.1 hu).elim (ih hr first u) (ihrest u)
  | group _ r ih =>
    rintro _ _ _ _ _ ⟨c₁, h, -⟩
    exact ih hr h

/-- The search goes over a unit that is the one of its class. -/
theorem mem_runs_single {v : ℕ} {c : List (ℕ × ℕ × ℕ)} (hi : i < text.length)
    (hv : unitAt text i = v) :
    (⟨i + 1, c⟩ : State) ∈ runs canonicalize text (units ⟨[(v, v)], false⟩) ⟨i, c⟩ := by
  rw [runs, if_pos ⟨hi, (has_single v _).2 (by rw [hv])⟩]
  exact List.mem_cons_self

/-- **The search tries every number of turns** over a class, as far as its units go. -/
theorem mem_turns_units : ∀ {fuel least : ℕ} {s : State},
      (∀ j < n, s.pos + j < text.length ∧ k.has canonicalize (unitAt text (s.pos + j)) = true) →
      least ≤ n → n < fuel → { s with pos := s.pos + n } ∈
        turns (fun s => runs canonicalize text (units k) (s.forget (units k).groups)) greedy fuel
          least none s := by
  induction n with
  | zero =>
    intro fuel least s _ hleast hfuel
    obtain ⟨fuel, rfl⟩ := Nat.exists_eq_succ_of_ne_zero (Nat.ne_of_gt hfuel)
    obtain rfl := Nat.eq_zero_of_le_zero hleast
    rw [turns, if_neg (Nat.lt_irrefl 0)]
    cases greedy with
    | true => exact List.mem_append_right _ List.mem_cons_self
    | false => exact List.mem_cons_self
  | succ n ih =>
    intro fuel least s hunits hleast hfuel
    obtain ⟨fuel, rfl⟩ := Nat.exists_eq_succ_of_ne_zero (Nat.ne_of_gt (Nat.zero_lt_of_lt hfuel))
    have hfirst := hunits 0 (Nat.succ_pos n)
    rw [Nat.add_zero] at hfirst
    have hforget : s.forget (units k).groups = s :=
      congrArg (State.mk s.pos) (List.filter_eq_self.2 fun _ _ => rfl)
    have hstep : runs canonicalize text (units k) (s.forget (units k).groups) =
        [{ s with pos := s.pos + 1 }] := by
      rw [hforget, runs, if_pos hfirst]
    have hothers : ∀ j < n, s.pos + 1 + j < text.length ∧
        k.has canonicalize (unitAt text (s.pos + 1 + j)) = true := by
      intro j hj
      have hnext := hunits (j + 1) (Nat.succ_lt_succ hj)
      rwa [Nat.add_comm j 1, ← Nat.add_assoc] at hnext
    have hrest := ih (s := { s with pos := s.pos + 1 }) hothers
      (Nat.sub_le_of_le_add hleast) (Nat.lt_of_succ_lt_succ hfuel)
    rw [turns, hstep, List.filter_cons_of_pos (by simp), List.filter_nil, List.flatMap_singleton]
    have hpos : s.pos + 1 + n = s.pos + (n + 1) := by omega
    rw [hpos] at hrest
    dsimp only [Option.map_none]
    rw [if_neg (fun h : (none : Option ℕ) = some 0 => nomatch h)]
    split_ifs
    · exact hrest
    · exact List.mem_append_left _ hrest
    · exact List.mem_cons_of_mem _ hrest

/-! ### Replacing matches -/

/-- The text from `i` on with the matches replaced by what a function makes of them. -/
def replaceMatchesWith (text : Utf16Text) (f : Match → Utf16Text) : ℕ → List Match → Utf16Text
  | i, [] => text.drop i
  | i, m :: rest => sliceUnits text i m.start ++ (f m ++ replaceMatchesWith text f m.stop rest)

/-- `text.replace(re, f)` with the flag `g`. -/
def replaceAllWith (canonicalize : ℕ → ℕ) (r : Regex) (text : Utf16Text) (f : Match → Utf16Text) :
    Utf16Text :=
  replaceMatchesWith text f 0 (matchAll canonicalize r text)

theorem replaceMatches_eq (text new : Utf16Text) (i : ℕ) (ms : List Match) :
    replaceMatches text new i ms = replaceMatchesWith text (fun _ => new) i ms := by
  induction ms generalizing i with
  | nil => rfl
  | cons m ms ih => rw [replaceMatches, replaceMatchesWith, ih, List.append_assoc]

theorem replaceAll_eq (canonicalize : ℕ → ℕ) (r : Regex) (text new : Utf16Text) :
    replaceAll canonicalize r text new = replaceAllWith canonicalize r text fun _ => new :=
  replaceMatches_eq text new 0 _

/-- The matches one after the other from a position on, with nothing but empty ones in between. -/
inductive MatchChain (canonicalize : ℕ → ℕ) (r : Regex) (text : Utf16Text) : ℕ → List Match → Prop
  | nil {i : ℕ} (hi : i ≤ text.length)
      (hnone : ∀ j, i ≤ j → j ≤ text.length → ∀ t ∈ (runs canonicalize text r ⟨j, []⟩).head?,
        t.pos = j) : MatchChain canonicalize r text i []
  | cons {i : ℕ} {m : Match} {ms : List Match} (hi : i ≤ m.start) (hstart : m.start ≤ m.stop)
      (hstop : m.stop ≤ text.length)
      (hmatch : Matches canonicalize r (text.take m.start) (sliceUnits text m.start m.stop)
        (text.drop m.stop) [] (wordsOf text m.captures))
      (hnone : ∀ j, i ≤ j → j < m.start → ∀ t ∈ (runs canonicalize text r ⟨j, []⟩).head?,
        t.pos = j)
      (rest : MatchChain canonicalize r text m.stop ms) : MatchChain canonicalize r text i (m :: ms)

/-- `exec` finds the first match. -/
theorem head?_of_execFrom_none (h : execFrom canonicalize r text i = none)
    {j : ℕ} (hij : i ≤ j) (hj : j ≤ text.length) :
    (runs canonicalize text r ⟨j, []⟩).head? = none := by
  have hnone := List.findSome?_eq_none_iff.1 h j (List.mem_range'_1.2 ⟨hij, by omega⟩)
  exact Option.map_eq_none_iff.1 hnone

theorem head?_of_lt_start
    (h : execFrom canonicalize r text i = some m) {j : ℕ} (hij : i ≤ j) (hj : j < m.start) :
    (runs canonicalize text r ⟨j, []⟩).head? = none := by
  obtain ⟨-, hstart, hstop, -⟩ := matches_of_execFrom h
  obtain ⟨before, start, after, hrange, hhead, hbefore⟩ := List.findSome?_eq_some_iff.1 h
  obtain ⟨t, -, rfl⟩ := Option.map_eq_some_iff.1 hhead
  have hsorted : (before ++ start :: after).Pairwise (· < ·) :=
    hrange ▸ List.pairwise_lt_range'
  have hmem : j ∈ before := by
    have hall : j ∈ before ++ start :: after := hrange ▸ List.mem_range'_1.2 ⟨hij, by omega⟩
    rcases List.mem_append.1 hall with hbefore | hafter
    · exact hbefore
    · rcases List.mem_cons.1 hafter with rfl | hafter
      · exact absurd hj (Nat.lt_irrefl _)
      · have hlt := List.rel_of_pairwise_cons (List.pairwise_append.1 hsorted).2.1 hafter
        exact absurd hj (Nat.lt_asymm hlt)
  exact Option.map_eq_none_iff.1 (hbefore j hmem)

/-- What `matchAll` finds are such matches. -/
theorem matchChain_matchAll (r : Regex) (text : Utf16Text) :
    MatchChain canonicalize r text 0 (matchAll canonicalize r text) := by
  -- the search goes on at `i`, which is behind `j` if the last match was empty
  have hmain : ∀ fuel i j, j ≤ text.length → text.length + 2 ≤ fuel + i →
      (i = j ∨ i = j + 1 ∧ ∀ t ∈ (runs canonicalize text r ⟨j, []⟩).head?, t.pos = j) →
      MatchChain canonicalize r text j (matchAllFrom canonicalize r text fuel i) := by
    intro fuel
    induction fuel with
    | zero => intro i j hj hfuel hi; omega
    | succ fuel ih =>
      intro i j hj hfuel hi
      have hcover : ∀ k, j ≤ k → (i ≤ k ∧ k ≤ text.length →
          (runs canonicalize text r ⟨k, []⟩).head? = none) → k ≤ text.length →
          ∀ t ∈ (runs canonicalize text r ⟨k, []⟩).head?, t.pos = k := by
        intro k hjk hnone hk t ht
        rcases Nat.lt_or_ge k i with hlt | hge
        · rcases hi with rfl | ⟨rfl, hempty⟩
          · omega
          · obtain rfl : k = j := by omega
            exact hempty t ht
        · rw [hnone ⟨hge, hk⟩] at ht
          cases ht
      rw [matchAllFrom]
      cases hexec : execFrom canonicalize r text i with
      | none =>
        exact .nil hj fun k hjk hk =>
          hcover k hjk (fun h => head?_of_execFrom_none hexec h.1 h.2) hk
      | some m =>
        obtain ⟨him, hstart, hstop, hmatch⟩ := matches_of_execFrom hexec
        refine .cons (by omega) hstart hstop hmatch (fun k hjk hk =>
          hcover k hjk (fun h => head?_of_lt_start hexec h.1 hk) (by omega)) (ih _ _ hstop ?_ ?_)
        · split_ifs <;> omega
        · split_ifs with hempty
          · refine .inr ⟨rfl, fun t ht => ?_⟩
            obtain ⟨start, -, hhead⟩ := List.exists_of_findSome?_eq_some hexec
            obtain ⟨u, hu, rfl⟩ := Option.map_eq_some_iff.1 hhead
            simp only at hempty ht ⊢
            rw [hempty, Option.mem_def, hu] at ht
            rw [← Option.some.inj ht]
          · exact .inl rfl
  exact hmain _ 0 0 (Nat.zero_le _) (Nat.le_refl _) (.inl rfl)

/-- Each match of a chain is one. -/
theorem MatchChain.matches_of_mem {ms : List Match}
    (h : MatchChain canonicalize r text i ms) (hm : m ∈ ms) :
    m.start ≤ m.stop ∧ m.stop ≤ text.length ∧
      Matches canonicalize r (text.take m.start) (sliceUnits text m.start m.stop)
        (text.drop m.stop) [] (wordsOf text m.captures) := by
  induction h with
  | nil => exact absurd hm List.not_mem_nil
  | cons _ hstart hstop hmatch _ _ ih =>
    rcases List.mem_cons.1 hm with rfl | hm
    · exact ⟨hstart, hstop, hmatch⟩
    · exact ih hm

variable {f : Match → Utf16Text}

/-- **The induction over the matches that are replaced**, from the last to the first: `Q i out` says
that the text from `i` on may become `out`. -/
theorem replaceAllWith_induction (Q : ℕ → Utf16Text → Prop)
    (last : ∀ i, i ≤ text.length → Q i (text.drop i))
    (step : ∀ i m out, m ∈ matchAll canonicalize r text → i ≤ m.start → m.start ≤ m.stop →
      m.stop ≤ text.length →
      Matches canonicalize r (text.take m.start) (sliceUnits text m.start m.stop)
        (text.drop m.stop) [] (wordsOf text m.captures) →
      Q m.stop out → Q i (sliceUnits text i m.start ++ (f m ++ out))) :
    Q 0 (replaceAllWith canonicalize r text f) := by
  have hmain : ∀ i ms, MatchChain canonicalize r text i ms →
      (∀ m ∈ ms, m ∈ matchAll canonicalize r text) → Q i (replaceMatchesWith text f i ms) := by
    intro i ms h
    induction h with
    | nil hi _ => exact fun _ => last _ hi
    | cons hi hstart hstop hmatch _ _ ih =>
      exact fun hmem => step _ _ _ (hmem _ List.mem_cons_self) hi hstart hstop hmatch
        (ih fun m hm => hmem m (List.mem_cons_of_mem _ hm))
  exact hmain 0 _ (matchChain_matchAll r text) fun _ hm => hm

/-- `text.replaceAll(u, word)`, for a single unit. -/
def replaceUnit (u : ℕ) (word text : Utf16Text) : Utf16Text :=
  text.flatMap fun v => if v = u then word else [v]

theorem replaceUnit_append (u : ℕ) (word a b : Utf16Text) :
    replaceUnit u word (a ++ b) = replaceUnit u word a ++ replaceUnit u word b :=
  List.flatMap_append

theorem replaceUnit_of_not_mem {text : Utf16Text} (h : u ∉ text) (word : Utf16Text) :
    replaceUnit u word text = text := by
  induction text with
  | nil => rfl
  | cons v text ih =>
    rw [List.mem_cons, not_or] at h
    rw [replaceUnit, List.flatMap_cons, if_neg (Ne.symm h.1)]
    exact congrArg (List.cons v) (ih h.2)

/-- The units of the new text are units of the text and of what the matches became. -/
theorem mem_replaceAllWith
    (h : u ∈ replaceAllWith canonicalize r text f) : u ∈ text ∨ ∃ m, u ∈ f m := by
  refine replaceAllWith_induction (fun _ out => u ∈ out → u ∈ text ∨ ∃ m, u ∈ f m)
    (fun i _ hu => .inl (List.mem_of_mem_drop hu)) (fun i m out _ _ _ _ _ ih hu => ?_) h
  rcases List.mem_append.1 hu with hu | hu
  · exact .inl (List.mem_of_mem_drop (List.mem_of_mem_take hu))
  · rcases List.mem_append.1 hu with hu | hu
    · exact .inr ⟨m, hu⟩
    · exact ih hu

end Regex

end Foundations
