import Mathlib.Data.List.Nodup
import Mathlib.Data.List.Sort
import Mathlib.Order.Defs.LinearOrder

/-!
# Keyset pagination

A list is handed out in pages of a limited length. What a page leaves for the next one is a cursor,
made from its last element; the next page has the first elements of the list that pass the cursor's
test.

* **`sortedBy`** — a list in the order of a comparison, and how filters go through it.
* **`followPages`** — fetching page after page until no cursor is left.
* **`Keyset`** — the cursors and their test; `fetch` is one page.
* **`CleanBreak`** — the test tells what the pages before a cursor have shown from what the next one
  is to show.
* **`visits_iff`** — the pages show every element once, in order, exactly if every break is clean.
* **`cleanBreak_iff`** — in a list that is sorted as the cursors are, a break is clean if the first
  element after it passes the test.
-/

namespace Foundations

variable {α γ : Type*}

/-! ### Sorting by a comparison -/

/-- The list in the order of a comparison. -/
def sortedBy (before : α → α → Bool) (l : List α) : List α :=
  l.insertionSort fun a b => before b a = false

/-- A comparison that puts the elements of a list in one order. -/
structure Ranks (before : α → α → Bool) (l : List α) : Prop where
  asymm : ∀ a b, before a b = true → before b a = false
  between : ∀ a b c, before a c = true → before a b = true ∨ before b c = true
  total : ∀ a ∈ l, ∀ b ∈ l, a ≠ b → before a b = true ∨ before b a = true

section SortedBy

variable {before : α → α → Bool} {l : List α}

theorem sortedBy_perm : (sortedBy before l).Perm l :=
  List.perm_insertionSort _ l

theorem mem_sortedBy {a : α} : a ∈ sortedBy before l ↔ a ∈ l :=
  sortedBy_perm.mem_iff

theorem Ranks.filter (h : Ranks before l) (p : α → Bool) : Ranks before (l.filter p) where
  asymm := h.asymm
  between := h.between
  total a ha b hb := h.total a (List.mem_of_mem_filter ha) b (List.mem_of_mem_filter hb)

/-- A list that is ranked comes out in strict order. -/
theorem Ranks.sorted (h : Ranks before l) (hl : l.Nodup) :
    (sortedBy before l).Pairwise fun a b => before a b = true := by
  have hnodup : (sortedBy before l).Nodup := sortedBy_perm.nodup_iff.2 hl
  have : Std.Total fun a b => before b a = false := ⟨fun a b => by
    cases hab : before a b with
    | false => exact .inr rfl
    | true => exact .inl (h.asymm a b hab)⟩
  have : IsTrans α fun a b => before b a = false := ⟨fun a b c hba hcb => by
    by_contra hca
    rcases h.between c b a (Bool.not_eq_false _ ▸ hca) with hlt | hlt
    · rw [hcb] at hlt
      cases hlt
    · rw [hba] at hlt
      cases hlt⟩
  have hle := List.pairwise_insertionSort (fun a b => before b a = false) l
  refine (hle.and hnodup).imp_of_mem fun {a b} ha hb ⟨hba, hne⟩ => ?_
  rcases h.total a (mem_sortedBy.1 ha) b (mem_sortedBy.1 hb) hne with hab | hab
  · exact hab
  · rw [hba] at hab
    cases hab

/-- Filtering a list that is sorted sorts what the filter leaves. -/
theorem Ranks.filter_sortedBy (h : Ranks before l) (hl : l.Nodup) (p : α → Bool) :
    (sortedBy before l).filter p = sortedBy before (l.filter p) := by
  have hperm : ((sortedBy before l).filter p).Perm (sortedBy before (l.filter p)) :=
    (sortedBy_perm.filter p).trans sortedBy_perm.symm
  refine List.Perm.eq_of_pairwise ?_ ?_ ((h.filter p).sorted (hl.filter p)) hperm
  · intro a b _ _ hab hba
    rw [h.asymm a b hab] at hba
    cases hba
  · exact (h.sorted hl).filter p

end SortedBy

/-! ### Pages -/

/-- What the pages show that are fetched one after the other; `none` if a page is refused, or while
the fuel does not suffice. -/
def followPages (fetch : Option γ → Option (List α × Option γ)) : ℕ → Option γ → Option (List α)
  | 0, _ => none
  | fuel + 1, cursor =>
    (fetch cursor).bind fun page =>
      match page.2 with
      | none => some page.1
      | some next => (followPages fetch fuel (some next)).map (page.1 ++ ·)

/-- Following the cursors from the start comes to an end, and shows the list. -/
def PagesShow (fetch : Option γ → Option (List α × Option γ)) (l : List α) : Prop :=
  ∃ fuel, followPages fetch fuel none = some l

/-- How a list is paged: the cursor that an element leaves, and its test. -/
structure Keyset (α γ : Type*) where
  cursorOf : α → γ
  passes : γ → α → Bool

namespace Keyset

variable (K : Keyset α γ) (l : List α) (limit : ℕ)

/-- What is left of the list at a cursor. -/
def rest (cursor : Option γ) : List α :=
  l.filter fun a => cursor.all (K.passes · a)

/-- A page, and its cursor if there is more. -/
def fetch (cursor : Option γ) : List α × Option γ :=
  let rows := (K.rest l cursor).take (limit + 1)
  let items := rows.take limit
  (items, if limit < rows.length then items.getLast?.map K.cursorOf else none)

/-- The cursor after `k` full pages of the list. -/
def cursorAt (k : ℕ) : Option γ :=
  (l.take (k * limit)).getLast?.map K.cursorOf

/-- A cursor splits a list into what was shown and what comes: none of the former pass its test, the
next page does, and so does something after it, if there is anything. -/
structure Clean (cursor : γ) (shown todo : List α) : Prop where
  shown : ∀ a ∈ shown, K.passes cursor a = false
  next : ∀ a ∈ todo.take limit, K.passes cursor a = true
  more : todo.drop limit ≠ [] → ∃ a ∈ todo.drop limit, K.passes cursor a = true

/-- The cursor after `k` pages splits the list there. -/
def CleanBreak (k : ℕ) : Prop :=
  ∀ cursor ∈ K.cursorAt l limit k,
    K.Clean limit cursor (l.take (k * limit)) (l.drop (k * limit))

variable {K l limit}

theorem fetch_eq (cursor : Option γ) : K.fetch l limit cursor =
    ((K.rest l cursor).take limit, if limit < (K.rest l cursor).length then
      ((K.rest l cursor).take limit).getLast?.map K.cursorOf else none) := by
  have hlength : limit < ((K.rest l cursor).take (limit + 1)).length ↔
      limit < (K.rest l cursor).length := by
    rw [List.length_take]
    omega
  simp only [fetch, hlength, List.take_take, Nat.min_eq_left (Nat.le_succ limit)]

variable {todo : List α}

/-- At a clean split, the page has what comes next. -/
theorem Clean.fetch {cursor : γ} {shown : List α} (h : K.Clean limit cursor shown todo) :
    K.fetch (shown ++ todo) limit (some cursor) =
      (todo.take limit, if limit < todo.length then (todo.take limit).getLast?.map K.cursorOf
        else none) := by
  have hshown : shown.filter (K.passes cursor) = [] :=
    List.filter_eq_nil_iff.2 fun a ha => by simp [h.shown a ha]
  have hnext : (todo.take limit).filter (K.passes cursor) = todo.take limit :=
    List.filter_eq_self.2 h.next
  have hrest : K.rest (shown ++ todo) (some cursor) =
      todo.take limit ++ (todo.drop limit).filter (K.passes cursor) := by
    calc K.rest (shown ++ todo) (some cursor)
        = shown.filter (K.passes cursor) ++ todo.filter (K.passes cursor) :=
          List.filter_append _ _
      _ = (todo.take limit ++ todo.drop limit).filter (K.passes cursor) := by
          rw [hshown, List.nil_append, List.take_append_drop]
      _ = todo.take limit ++ (todo.drop limit).filter (K.passes cursor) := by
          rw [List.filter_append, hnext]
  rw [fetch_eq, hrest]
  by_cases hmore : limit < todo.length
  · have hlen : (todo.take limit).length = limit := by
      rw [List.length_take]
      omega
    have hdrop : todo.drop limit ≠ [] := by
      rw [ne_eq, List.drop_eq_nil_iff]
      omega
    obtain ⟨a, ha, hpass⟩ := h.more hdrop
    have hpos : 0 < ((todo.drop limit).filter (K.passes cursor)).length :=
      List.length_pos_of_mem (List.mem_filter.2 ⟨ha, hpass⟩)
    have htake : (todo.take limit ++ (todo.drop limit).filter (K.passes cursor)).take limit =
        todo.take limit := by
      rw [List.take_append_of_le_length hlen.ge, List.take_take, Nat.min_self]
    rw [htake, if_pos hmore, if_pos (by rw [List.length_append, hlen]; omega)]
  · have htodo : todo.take limit = todo := List.take_of_length_le (by omega)
    have hdrop : todo.drop limit = [] := List.drop_eq_nil_iff.2 (by omega)
    rw [hdrop, List.filter_nil, List.append_nil, htodo, htodo, if_neg hmore]

/-- Pages that show what comes show the first of what is left at their cursor, and all of it if it
fits on one page. -/
theorem prefix_of_followPages {cursor : γ} (hlimit : 0 < limit) {fuel : ℕ}
    (h : followPages (some <| K.fetch l limit ·) fuel (some cursor) = some todo) :
    (∃ tail, (K.rest l (some cursor)).take limit ++ tail = todo) ∧
      ((K.rest l (some cursor)).length ≤ limit → K.rest l (some cursor) = todo) := by
  cases fuel with
  | zero => cases h
  | succ fuel =>
    rw [followPages, Option.bind_some, fetch_eq] at h
    dsimp only at h
    generalize K.rest l (some cursor) = rest at h ⊢
    split at h
    · rename_i hnone
      have hle : rest.length ≤ limit := by
        by_contra hlt
        rw [if_pos (by omega), Option.map_eq_none_iff, List.getLast?_eq_none_iff,
          List.take_eq_nil_iff] at hnone
        rcases hnone with hzero | hnil
        · omega
        · rw [hnil] at hlt
          exact hlt (Nat.zero_le _)
      rw [List.take_of_length_le hle, Option.some.injEq] at h
      exact ⟨⟨[], by rw [List.append_nil, List.take_of_length_le hle, h]⟩, fun _ => h⟩
    · rename_i hsome
      obtain ⟨tail, -, htail⟩ := Option.map_eq_some_iff.1 h
      refine ⟨⟨tail, htail⟩, fun hle => ?_⟩
      rw [if_neg (by omega)] at hsome
      cases hsome

/-- If the pages from a cursor on show what comes, the cursor splits cleanly. -/
theorem clean_of_followPages {cursor : γ} {shown : List α} (hlimit : 0 < limit)
    (hnodup : (shown ++ todo).Nodup) {fuel : ℕ}
    (h : followPages (some <| K.fetch (shown ++ todo) limit ·) fuel (some cursor) = some todo) :
    K.Clean limit cursor shown todo := by
  obtain ⟨-, -, hdisjoint⟩ := List.nodup_append.1 hnodup
  obtain ⟨⟨tail, htail⟩, hall⟩ := prefix_of_followPages hlimit h
  have hrest : K.rest (shown ++ todo) (some cursor) =
      shown.filter (K.passes cursor) ++ todo.filter (K.passes cursor) := List.filter_append _ _
  generalize K.rest (shown ++ todo) (some cursor) = rest at htail hall hrest
  -- the page has nothing that was shown, and the first of what passes is on it
  have hshown : shown.filter (K.passes cursor) = [] := by
    rw [List.eq_nil_iff_forall_not_mem]
    intro a ha
    obtain ⟨b, bs, hb⟩ := List.exists_cons_of_ne_nil (List.ne_nil_of_mem ha)
    have hfirst : b ∈ rest.take limit := by
      rw [hrest, hb, List.cons_append, List.take_cons hlimit]
      exact List.mem_cons_self
    have hbshown : b ∈ shown := List.mem_of_mem_filter (hb ▸ List.mem_cons_self)
    exact hdisjoint b hbshown b (htail ▸ List.mem_append_left _ hfirst) rfl
  rw [hshown, List.nil_append] at hrest
  have hpasses : ∀ a ∈ rest, K.passes cursor a = true := by
    intro a ha
    rw [hrest] at ha
    exact (List.mem_filter.1 ha).2
  have hshort (hle : ¬ rest.length ≤ limit) : todo.take limit = rest.take limit := by
    have hlen : (rest.take limit).length = limit := by
      rw [List.length_take]
      omega
    rw [← htail, List.take_append_of_le_length hlen.ge, List.take_take, Nat.min_self]
  refine ⟨fun a ha => ?_, fun a ha => ?_, fun hmore => ?_⟩
  · have hnot := List.filter_eq_nil_iff.1 hshown a ha
    exact Bool.eq_false_iff.2 hnot
  · by_cases hle : rest.length ≤ limit
    · exact hpasses a (hall hle ▸ List.mem_of_mem_take ha)
    · rw [hshort hle] at ha
      exact hpasses a (List.mem_of_mem_take ha)
  · by_cases hle : rest.length ≤ limit
    · obtain ⟨a, ha⟩ := List.exists_mem_of_ne_nil _ hmore
      exact ⟨a, ha, hpasses a (hall hle ▸ List.mem_of_mem_drop ha)⟩
    · -- the page takes no more than its length of what passes, so something lies beyond it
      have hsplit : (todo.take limit).filter (K.passes cursor) ++
          (todo.drop limit).filter (K.passes cursor) = rest := by
        rw [← List.filter_append, List.take_append_drop, hrest]
      have hpage : ((todo.take limit).filter (K.passes cursor)).length ≤ limit :=
        (List.length_filter_le _ _).trans (List.length_take_le _ _)
      have hlong := congrArg List.length hsplit
      rw [List.length_append] at hlong
      obtain ⟨a, ha⟩ := List.exists_mem_of_length_pos
        (show 0 < ((todo.drop limit).filter (K.passes cursor)).length by omega)
      exact ⟨a, (List.mem_filter.1 ha).1, (List.mem_filter.1 ha).2⟩

/-! ### The whole list -/

theorem cursorAt_zero : K.cursorAt l limit 0 = none := by
  simp [cursorAt]

/-- A full page that is not the last leaves a cursor. -/
theorem exists_cursorAt {k : ℕ} (hlimit : 0 < limit) (hk : 0 < k) (hlt : k * limit < l.length) :
    ∃ cursor, K.cursorAt l limit k = some cursor := by
  have hne : l.take (k * limit) ≠ [] := by
    rw [ne_eq, List.take_eq_nil_iff, not_or, ← ne_eq, ← ne_eq]
    exact ⟨Nat.mul_ne_zero hk.ne' hlimit.ne', List.ne_nil_of_length_pos (by omega)⟩
  exact ⟨_, by rw [cursorAt, List.getLast?_eq_some_getLast hne, Option.map_some]⟩

theorem cleanBreak_zero : K.CleanBreak l limit 0 := by
  intro cursor hcursor
  rw [cursorAt_zero] at hcursor
  cases hcursor

/-- The page at a clean break. -/
theorem fetch_cursorAt {k : ℕ} (hlimit : 0 < limit) (hk : k = 0 ∨ k * limit < l.length)
    (h : K.CleanBreak l limit k) : K.fetch l limit (K.cursorAt l limit k) =
      ((l.drop (k * limit)).take limit,
        if (k + 1) * limit < l.length then K.cursorAt l limit (k + 1) else none) := by
  have hnext : (k + 1) * limit = k * limit + limit := Nat.succ_mul k limit
  have hlast (hmore : k * limit + limit < l.length) :
      (l.take (k * limit + limit)).getLast? = ((l.drop (k * limit)).take limit).getLast? := by
    have hlen : 0 < ((l.drop (k * limit)).take limit).length := by
      rw [List.length_take, List.length_drop]
      omega
    rw [List.take_add, List.getLast?_append_of_ne_nil _ (List.ne_nil_of_length_pos hlen)]
  have hmore : limit < (l.drop (k * limit)).length ↔ k * limit + limit < l.length := by
    rw [List.length_drop]
    omega
  cases hcursor : K.cursorAt l limit k with
  | none =>
    -- only the first page has no cursor
    obtain rfl | hpos := Nat.eq_zero_or_pos k
    · have hrest : K.rest l none = l := List.filter_eq_self.2 fun _ _ => rfl
      rw [fetch_eq, hrest, hnext, cursorAt, hnext]
      simp only [Nat.zero_mul, List.drop_zero, Nat.zero_add]
    · obtain ⟨cursor, hsome⟩ :=
        exists_cursorAt (K := K) hlimit hpos (hk.resolve_left hpos.ne')
      rw [hsome] at hcursor
      cases hcursor
  | some cursor =>
    have hclean := (h cursor hcursor).fetch
    rw [List.take_append_drop] at hclean
    rw [hclean, hnext, cursorAt, hnext]
    by_cases hlt : k * limit + limit < l.length
    · rw [if_pos (hmore.2 hlt), if_pos hlt, hlast hlt]
    · rw [if_neg (mt hmore.1 hlt), if_neg hlt]

/-- With clean breaks, the pages from a cursor on show the rest of the list. -/
theorem followPages_of_clean (hlimit : 0 < limit)
    (h : ∀ k, k * limit < l.length → K.CleanBreak l limit k) (fuel k : ℕ)
    (hk : k = 0 ∨ k * limit < l.length) (hfuel : l.length ≤ (k + fuel + 1) * limit) :
    followPages (some <| K.fetch l limit ·) (fuel + 1) (K.cursorAt l limit k) =
      some (l.drop (k * limit)) := by
  have hbreak : K.CleanBreak l limit k := by
    rcases hk with rfl | hk
    · exact cleanBreak_zero
    · exact h k hk
  have hnext : (k + 1) * limit = k * limit + limit := Nat.succ_mul k limit
  induction fuel generalizing k with
  | zero =>
    have hend : ¬ (k + 1) * limit < l.length := by
      rw [Nat.add_zero] at hfuel
      omega
    rw [followPages, Option.bind_some, fetch_cursorAt hlimit hk hbreak, if_neg hend]
    dsimp only
    rw [List.take_of_length_le]
    rw [List.length_drop]
    omega
  | succ fuel ih =>
    rw [followPages, Option.bind_some, fetch_cursorAt hlimit hk hbreak]
    dsimp only
    by_cases hmore : (k + 1) * limit < l.length
    · have hlater := ih (k + 1) (.inr hmore) (by rwa [Nat.add_right_comm k 1 fuel])
        (h _ hmore) (Nat.succ_mul _ _)
      obtain ⟨next, hcursor⟩ := exists_cursorAt (K := K) hlimit (Nat.succ_pos k) hmore
      rw [hcursor] at hlater
      rw [if_pos hmore, hcursor]
      dsimp only
      rw [hlater, Option.map_some, hnext, ← List.drop_drop, List.take_append_drop]
    · rw [if_neg hmore]
      dsimp only
      rw [List.take_of_length_le]
      rw [List.length_drop]
      omega

/-- If the pages from a cursor on show the rest of the list, the breaks from there on are clean. -/
theorem clean_of_followPages_drop (hlimit : 0 < limit) (hnodup : l.Nodup) (fuel k : ℕ)
    (hk : k = 0 ∨ k * limit < l.length)
    (h : followPages (some <| K.fetch l limit ·) fuel (K.cursorAt l limit k) =
      some (l.drop (k * limit)))
    (j : ℕ) (hkj : k ≤ j) (hj : j * limit < l.length) : K.CleanBreak l limit j := by
  induction fuel generalizing k with
  | zero => cases h
  | succ fuel ih =>
    have hbreak : K.CleanBreak l limit k := by
      intro cursor hcursor
      rw [Option.mem_def.1 hcursor] at h
      have hsplit : l.take (k * limit) ++ l.drop (k * limit) = l := List.take_append_drop _ l
      exact clean_of_followPages hlimit (by rwa [hsplit]) (by rw [hsplit]; exact h)
    rcases Nat.eq_or_lt_of_le hkj with rfl | hlt
    · exact hbreak
    have hnext : (k + 1) * limit = k * limit + limit := Nat.succ_mul k limit
    have hmore : (k + 1) * limit < l.length :=
      lt_of_le_of_lt (Nat.mul_le_mul_right limit hlt) hj
    obtain ⟨next, hcursor⟩ := exists_cursorAt (K := K) hlimit (Nat.succ_pos k) hmore
    rw [followPages, Option.bind_some, fetch_cursorAt hlimit hk hbreak, if_pos hmore, hcursor] at h
    dsimp only at h
    obtain ⟨tail, htail, happend⟩ := Option.map_eq_some_iff.1 h
    have hdrop : l.drop ((k + 1) * limit) = tail := by
      have hcancel := List.append_cancel_left
        (happend.trans (List.take_append_drop limit (l.drop (k * limit))).symm)
      rw [hcancel, List.drop_drop, hnext]
    refine ih (k + 1) (.inr hmore) ?_ hlt
    rw [hcursor, htail, hdrop]

/-- **When paging is complete**: the pages show every element once, in order, exactly if every break
is clean. -/
theorem visits_iff (hlimit : 0 < limit) (hnodup : l.Nodup) :
    PagesShow (some <| K.fetch l limit ·) l ↔
      ∀ k, k * limit < l.length → K.CleanBreak l limit k := by
  constructor
  · rintro ⟨fuel, hfuel⟩ k hk
    refine clean_of_followPages_drop hlimit hnodup fuel 0 (.inl rfl) ?_ k (Nat.zero_le k) hk
    rwa [cursorAt_zero, Nat.zero_mul, List.drop_zero]
  · intro h
    have hshow := followPages_of_clean hlimit h l.length 0 (.inl rfl) (by
      rw [Nat.zero_add, Nat.succ_mul]
      exact Nat.le_add_right_of_le (Nat.le_mul_of_pos_right _ hlimit))
    rw [cursorAt_zero, Nat.zero_mul, List.drop_zero] at hshow
    exact ⟨_, hshow⟩

/-! ### Cursors along the order -/

/-- A full page of the list ends at one element, and the other one comes next. -/
def PageBreak (l : List α) (limit : ℕ) (last next : α) : Prop :=
  ∃ k, (l.take (k * limit)).getLast? = some last ∧ l[k * limit]? = some next

/-- The test of a cursor goes with the order of the list: what is not after the cursor's element
fails it, and what is after something that passes it does so too. -/
structure Along (K : Keyset α γ) (before : α → α → Bool) (l : List α) : Prop where
  fails : ∀ a ∈ l, K.passes (K.cursorOf a) a = false
  back : ∀ a ∈ l, ∀ b ∈ l, before a b = true → K.passes (K.cursorOf b) a = false
  onward : ∀ a ∈ l, ∀ b ∈ l, ∀ c ∈ l, before a b = true → K.passes (K.cursorOf c) a = true →
    K.passes (K.cursorOf c) b = true

/-- If the cursors go along the order of the list, a break is clean exactly if what comes first
after it passes. -/
theorem Along.cleanBreak_iff {before : α → α → Bool} (hlaw : K.Along before l)
    (hsorted : l.Pairwise fun a b => before a b = true) (hlimit : 0 < limit) {k : ℕ}
    (hk : k * limit < l.length) : K.CleanBreak l limit k ↔
      ∀ last next, (l.take (k * limit)).getLast? = some last → l[k * limit]? = some next →
        K.passes (K.cursorOf last) next = true := by
  have hfirst : l.drop (k * limit) = l[k * limit] :: l.drop (k * limit + 1) :=
    List.drop_eq_getElem_cons hk
  have hget : l[k * limit]? = some l[k * limit] := List.getElem?_eq_getElem hk
  have hmem : l[k * limit] ∈ l := List.getElem_mem hk
  constructor
  · intro h last next hlast hnext
    obtain rfl := Option.some.inj (hget.symm.trans hnext)
    refine (h (K.cursorOf last) (by rw [cursorAt, hlast]; rfl)).next _ ?_
    rw [hfirst, List.take_cons hlimit]
    exact List.mem_cons_self
  · intro h cursor hcursor
    obtain ⟨last, hlast, rfl⟩ := Option.map_eq_some_iff.1 hcursor
    have hshown : last ∈ l.take (k * limit) := List.mem_of_getLast? hlast
    have hlastmem : last ∈ l := List.mem_of_mem_take hshown
    have hpass := h last _ hlast hget
    -- what comes is the first element after the break, or after it
    have hall : ∀ a ∈ l.drop (k * limit), K.passes (K.cursorOf last) a = true := by
      intro a ha
      have hpair := hsorted.sublist (List.drop_sublist (k * limit) l)
      have haL := List.mem_of_mem_drop ha
      rw [hfirst] at ha hpair
      rcases List.mem_cons.1 ha with rfl | ha
      · exact hpass
      · exact hlaw.onward _ hmem a haL last hlastmem ((List.pairwise_cons.1 hpair).1 a ha) hpass
    refine ⟨fun a ha => ?_, fun a ha => hall a (List.mem_of_mem_take ha), fun hmore => ?_⟩
    · obtain ⟨init, hinit⟩ := List.getLast?_eq_some_iff.1 hlast
      have hpair := hsorted.sublist (List.take_sublist (k * limit) l)
      have haL := List.mem_of_mem_take ha
      rw [hinit] at ha hpair
      rcases List.mem_append.1 ha with ha | ha
      · exact hlaw.back a haL last hlastmem
          ((List.pairwise_append.1 hpair).2.2 a ha last List.mem_cons_self)
      · rw [List.mem_singleton.1 ha]
        exact hlaw.fails last hlastmem
    · obtain ⟨a, ha⟩ := List.exists_mem_of_ne_nil _ hmore
      exact ⟨a, ha, hall a (List.mem_of_mem_drop ha)⟩

/-- The pages of a list along whose order the cursors go are complete exactly if at the end of each
one, what comes next passes the test of its cursor. -/
theorem Along.visits_iff {before : α → α → Bool} (hlaw : K.Along before l)
    (hsorted : l.Pairwise fun a b => before a b = true) (hlimit : 0 < limit) (hnodup : l.Nodup) :
    PagesShow (some <| K.fetch l limit ·) l ↔
      ∀ last next, PageBreak l limit last next → K.passes (K.cursorOf last) next = true := by
  rw [Keyset.visits_iff hlimit hnodup]
  constructor
  · rintro h last next ⟨k, hlast, hnext⟩
    have hk : k * limit < l.length := (List.getElem?_eq_some_iff.1 hnext).1
    exact (hlaw.cleanBreak_iff hsorted hlimit hk).1 (h k hk) last next hlast hnext
  · intro h k hk
    exact (hlaw.cleanBreak_iff hsorted hlimit hk).2 fun last next hlast hnext =>
      h last next ⟨k, hlast, hnext⟩

theorem PageBreak.last_mem {last next : α} (h : PageBreak l limit last next) : last ∈ l := by
  obtain ⟨k, hlast, -⟩ := h
  exact List.mem_of_mem_take (List.mem_of_getLast? hlast)

/-- Elements at the end of a page are in the order of the list. -/
theorem PageBreak.before {before : α → α → Bool} {last next : α}
    (hsorted : l.Pairwise fun a b => before a b = true) (h : PageBreak l limit last next) :
    before last next = true := by
  obtain ⟨k, hlast, hnext⟩ := h
  have hsplit := hsorted
  rw [← List.take_append_drop (k * limit) l, List.pairwise_append] at hsplit
  refine hsplit.2.2 last (List.mem_of_getLast? hlast) next (List.mem_of_getElem? (i := 0) ?_)
  rw [List.getElem?_drop, Nat.add_zero]
  exact hnext

end Keyset

end Foundations
