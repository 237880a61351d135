import Mathlib.Data.List.Dedup
import Mathlib.Data.List.Sort
import Mathlib.Order.Lattice

/-!
# Sweeping a set in pages

A sweep goes through the items of a set in ascending order, a page at a time. What it keeps between
two pages is a cursor, the last item of the page; each page may leave out other items, and have
another limit. A page that is not full ends the sweep.

* **`page`**, **`cursorAfter`** — a page, and the cursor that it leaves.
* **`GoneBy`** — the items that a page goes past.
* **`mem_page_iff`** — a page has exactly the items it goes past and does not leave out.
* **`countP_beyond_lt`** — a page leaves fewer items to go.
-/

namespace Foundations

variable {ι : Type*} [LinearOrder ι]

/-- The item is beyond the cursor. -/
def Beyond (cursor : Option ι) (i : ι) : Bool :=
  cursor.all (· < i)

/-- The items beyond the cursor that are not left out, each once, in order. -/
def candidates (items : List ι) (cursor : Option ι) (leftOut : ι → Bool) : List ι :=
  (items.filter fun i => Beyond cursor i && !leftOut i).dedup.mergeSort (· ≤ ·)

/-- The first of them. -/
def page (items : List ι) (cursor : Option ι) (leftOut : ι → Bool) (limit : ℕ) : List ι :=
  (candidates items cursor leftOut).take limit

/-- The cursor after a page: none if it ends the sweep. An empty page has no last item, and one that
is full then leaves the cursor where it was. -/
def cursorAfter (cursor : Option ι) (limit : ℕ) (ids : List ι) : Option ι :=
  if limit ≤ ids.length then ids.getLast?.or cursor else none

omit [LinearOrder ι] in
theorem cursorAfter_of_le {cursor : Option ι} {limit : ℕ} {ids : List ι}
    (h : limit ≤ ids.length) : cursorAfter cursor limit ids = ids.getLast?.or cursor := if_pos h

omit [LinearOrder ι] in
theorem cursorAfter_of_lt {cursor : Option ι} {limit : ℕ} {ids : List ι}
    (h : ids.length < limit) : cursorAfter cursor limit ids = none := if_neg (not_le.2 h)

/-- A page goes past an item that is beyond the cursor, and not beyond the next one unless the page
ends the sweep. -/
def GoneBy (cursor : Option ι) (limit : ℕ) (ids : List ι) (i : ι) : Bool :=
  Beyond cursor i && (decide (ids.length < limit) || !Beyond (cursorAfter cursor limit ids) i)

section Page

variable {items : List ι} {cursor : Option ι} {leftOut : ι → Bool} {limit : ℕ}

variable {i : ι}

theorem mem_candidates : i ∈ candidates items cursor leftOut ↔
    i ∈ items ∧ Beyond cursor i = true ∧ leftOut i = false := by
  simp [candidates]

/-- The candidates are in strictly ascending order. -/
theorem candidates_ascending :
    (candidates items cursor leftOut).Pairwise (· < ·) := by
  have hsorted : (candidates items cursor leftOut).Pairwise (· ≤ ·) := by
    have h : (candidates items cursor leftOut).Pairwise fun a b => decide (a ≤ b) :=
      List.pairwise_mergeSort (fun a b c => by simpa using le_trans)
        (fun a b => by simpa using le_total a b) _
    exact h.imp fun h => of_decide_eq_true h
  have hnodup : (candidates items cursor leftOut).Nodup :=
    (List.mergeSort_perm _ _).nodup_iff.2 (List.nodup_dedup _)
  exact hsorted.imp₂ (fun _ _ hle hne => lt_of_le_of_ne hle hne) hnodup

/-- **A page has nobody twice.** -/
theorem nodup_page : (page items cursor leftOut limit).Nodup :=
  (candidates_ascending.sublist (List.take_sublist _ _)).imp fun h => ne_of_lt h

theorem mem_page (h : i ∈ page items cursor leftOut limit) :
    i ∈ items ∧ Beyond cursor i = true ∧ leftOut i = false :=
  mem_candidates.1 (List.mem_of_mem_take h)

/-- A page that is not full has all of the candidates. -/
theorem page_of_length_lt (h : (page items cursor leftOut limit).length < limit) :
    page items cursor leftOut limit = candidates items cursor leftOut := by
  rw [page, List.length_take] at h
  exact List.take_of_length_le (by omega)

/-- The candidates up to the last of a page are in the page. -/
theorem mem_page_of_le {last : ι} (hlast : (page items cursor leftOut limit).getLast? = some last)
    (hi : i ∈ candidates items cursor leftOut) (hle : i ≤ last) :
    i ∈ page items cursor leftOut limit := by
  have hsplit := List.take_append_drop limit (candidates items cursor leftOut)
  rw [← hsplit, List.mem_append] at hi
  refine hi.resolve_right fun hdrop => ?_
  have hasc : (candidates items cursor leftOut).Pairwise (· < ·) := candidates_ascending
  rw [← hsplit, List.pairwise_append] at hasc
  exact absurd (hasc.2.2 last (List.mem_of_getLast? hlast) i hdrop) (not_lt.2 hle)

/-- The items of a page are not beyond its last. -/
theorem le_last {last : ι} (hlast : (page items cursor leftOut limit).getLast? = some last)
    (hi : i ∈ page items cursor leftOut limit) : i ≤ last := by
  have hasc := candidates_ascending.sublist
    (List.take_sublist limit (candidates items cursor leftOut))
  rw [← page] at hasc
  obtain ⟨before, hbefore⟩ := List.getLast?_eq_some_iff.1 hlast
  rw [hbefore] at hi hasc
  rcases List.mem_append.1 hi with hmem | hmem
  · exact le_of_lt ((List.pairwise_append.1 hasc).2.2 i hmem last List.mem_cons_self)
  · exact le_of_eq (List.mem_singleton.1 hmem)

/-- **A page has exactly the items that it goes past and does not leave out.** -/
theorem mem_page_iff : i ∈ page items cursor leftOut limit ↔
    i ∈ items ∧ GoneBy cursor limit (page items cursor leftOut limit) i = true ∧
      leftOut i = false := by
  rcases lt_or_ge (page items cursor leftOut limit).length limit with hshort | hfull
  · rw [GoneBy, decide_eq_true hshort, Bool.true_or, Bool.and_true]
    rw [page_of_length_lt hshort]
    exact mem_candidates
  · rw [GoneBy, cursorAfter_of_le hfull, decide_eq_false (not_lt.2 hfull), Bool.false_or]
    cases hlast : (page items cursor leftOut limit).getLast? with
    | none =>
      rw [List.getLast?_eq_none_iff.1 hlast, Option.none_or]
      cases Beyond cursor i <;> simp
    | some last =>
      rw [Option.some_or]
      constructor
      · intro hi
        obtain ⟨hitem, hbeyond, hin⟩ := mem_page hi
        refine ⟨hitem, ?_, hin⟩
        rw [hbeyond, Beyond, Option.all_some, decide_eq_false (not_lt.2 (le_last hlast hi))]
        rfl
      · rintro ⟨hitem, hgone, hin⟩
        rw [Bool.and_eq_true, Beyond, Beyond, Option.all_some, Bool.not_eq_true',
          decide_eq_false_iff_not, not_lt] at hgone
        exact mem_page_of_le hlast (mem_candidates.2 ⟨hitem, hgone.1, hin⟩) hgone.2

/-- What is beyond the next cursor of a sweep that goes on was beyond this one. -/
theorem beyond_of_cursorAfter (hfull : limit ≤ (page items cursor leftOut limit).length)
    (h : Beyond (cursorAfter cursor limit (page items cursor leftOut limit)) i = true) :
    Beyond cursor i = true := by
  rw [cursorAfter_of_le hfull] at h
  cases hlast : (page items cursor leftOut limit).getLast? with
  | none => rwa [hlast, Option.none_or] at h
  | some last =>
    rw [hlast, Option.some_or] at h
    have hlt : last < i := of_decide_eq_true h
    have hbeyond := (mem_page (List.mem_of_getLast? hlast)).2.1
    cases cursor with
    | none => rfl
    | some c => exact decide_eq_true ((of_decide_eq_true hbeyond).trans hlt)

omit [LinearOrder ι] in
theorem countP_lt_countP {l : List ι} {p q : ι → Bool} (h : ∀ i ∈ l, p i = true → q i = true)
    {a : ι} (ha : a ∈ l) (hp : p a = false) (hq : q a = true) : l.countP p < l.countP q := by
  obtain ⟨xs, ys, rfl⟩ := List.append_of_mem ha
  have hxs := List.countP_mono_left fun i hi => h i (List.mem_append_left _ hi)
  have hys := List.countP_mono_left fun i hi =>
    h i (List.mem_append_right _ (List.mem_cons_of_mem _ hi))
  rw [List.countP_append, List.countP_append, List.countP_cons_of_neg (by simp [hp]),
    List.countP_cons_of_pos hq]
  omega

/-- **A full page leaves fewer items to go**, if its limit is not zero. -/
theorem countP_beyond_lt (hlimit : 0 < limit)
    (hfull : limit ≤ (page items cursor leftOut limit).length) :
    items.countP (Beyond (cursorAfter cursor limit (page items cursor leftOut limit)))
      < items.countP (Beyond cursor) := by
  obtain ⟨last, hlast⟩ : ∃ last, (page items cursor leftOut limit).getLast? = some last := by
    cases h : (page items cursor leftOut limit).getLast? with
    | some last => exact ⟨last, rfl⟩
    | none =>
      rw [List.getLast?_eq_none_iff.1 h, List.length_nil] at hfull
      omega
  obtain ⟨hitem, hbeyond, -⟩ := mem_page (List.mem_of_getLast? hlast)
  have hgone : Beyond (cursorAfter cursor limit (page items cursor leftOut limit)) last
      = false := by
    rw [cursorAfter_of_le hfull, hlast, Option.some_or, Beyond, Option.all_some]
    exact decide_eq_false (lt_irrefl last)
  have hmono : ∀ i ∈ items,
      Beyond (cursorAfter cursor limit (page items cursor leftOut limit)) i = true →
        Beyond cursor i = true := fun i _ => beyond_of_cursorAfter hfull
  exact countP_lt_countP hmono hitem hgone hbeyond

end Page

end Foundations
