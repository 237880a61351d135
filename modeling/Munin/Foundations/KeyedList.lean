import Mathlib.Data.List.Infix
import Mathlib.Data.List.Nodup

/-!
# Lists edited by key

The elements of a list may have keys, no two the same. An edit takes the element of a key out, and
may put one with this key back at another place.

* **`UniqueKeys`** — no two elements have one key.
* **`without`** — the list without the element of a key; `UniqueKeys.split` is the place where it was.
* **`Adjacent`** — the elements of two keys are next to each other; edits of other keys that put
  nothing between them keep that.
* **`foldl_editAt`** — edits of different keys, made one after the other, are one pass over the list.
-/

namespace Foundations

variable {α κ : Type*} (key : α → Option κ)

/-- No two elements have the same key; there may be elements without one. -/
def UniqueKeys (l : List α) : Prop :=
  (l.filterMap key).Nodup

/-- The elements of two keys stand next to each other, in this order. -/
def Adjacent (j k : κ) (l : List α) : Prop :=
  [some j, some k] <:+: l.map key

instance [DecidableEq κ] (l : List α) : Decidable (UniqueKeys key l) :=
  inferInstanceAs (Decidable (List.Nodup _))

instance [DecidableEq κ] (j k : κ) (l : List α) : Decidable (Adjacent key j k l) :=
  inferInstanceAs (Decidable (_ <:+: _))

variable {key} {i j k : κ} {l l₁ l₂ : List α}

/-! ### What is put in -/

/-- **The element of a key stands at one place**. -/
theorem UniqueKeys.split (h : UniqueKeys key l) (hk : k ∈ l.filterMap key) :
    ∃ l₁ b l₂, l = l₁ ++ b :: l₂ ∧ key b = some k ∧
      k ∉ l₁.filterMap key ∧ k ∉ l₂.filterMap key := by
  obtain ⟨b, hb, hkey⟩ := List.mem_filterMap.1 hk
  obtain ⟨l₁, l₂, rfl⟩ := List.append_of_mem hb
  rw [UniqueKeys, List.filterMap_append, List.filterMap_cons_some hkey] at h
  have hnot := (List.nodup_cons.1 (List.nodup_middle.1 h)).1
  rw [List.mem_append, not_or] at hnot
  exact ⟨l₁, b, l₂, rfl, hkey, hnot.1, hnot.2⟩

variable {a b w : α}

theorem UniqueKeys.eq_of_key (h : UniqueKeys key l) (ha : a ∈ l) (hb : b ∈ l)
    (hak : key a = some k) (hbk : key b = some k) : a = b := by
  obtain ⟨l₁, c, l₂, rfl, -, h₁, h₂⟩ := h.split (List.mem_filterMap.2 ⟨a, ha, hak⟩)
  have honly {x : α} (hx : x ∈ l₁ ++ c :: l₂) (hxk : key x = some k) : x = c := by
    rcases List.mem_append.1 hx with hx | hx
    · exact absurd (List.mem_filterMap.2 ⟨x, hx, hxk⟩) h₁
    · exact (List.mem_cons.1 hx).resolve_right fun hx =>
        h₂ (List.mem_filterMap.2 ⟨x, hx, hxk⟩)
  exact (honly ha hak).trans (honly hb hbk).symm

theorem UniqueKeys.insert (h : UniqueKeys key (l₁ ++ l₂)) (hw : key w = some k)
    (hk : k ∉ (l₁ ++ l₂).filterMap key) : UniqueKeys key (l₁ ++ w :: l₂) := by
  rw [UniqueKeys, List.filterMap_append] at h
  rw [List.filterMap_append] at hk
  rw [UniqueKeys, List.filterMap_append, List.filterMap_cons_some hw]
  exact List.nodup_middle.2 (List.nodup_cons.2 ⟨hk, h⟩)

theorem mem_insert {x : α} : x ∈ l₁ ++ w :: l₂ ↔ x = w ∨ x ∈ l₁ ++ l₂ := by
  simp only [List.mem_append, List.mem_cons]
  exact or_left_comm

theorem filter_insert {p : α → Bool} (hw : p w = false) :
    (l₁ ++ w :: l₂).filter p = (l₁ ++ l₂).filter p := by
  rw [List.filter_append, List.filter_append, List.filter_cons_of_neg (by simp [hw])]

/-! ### Neighbours -/

theorem Adjacent.left_mem (h : Adjacent key j k l) : j ∈ l.filterMap key := by
  obtain ⟨a, ha, hkey⟩ := List.mem_map.1 (h.subset List.mem_cons_self)
  exact List.mem_filterMap.2 ⟨a, ha, hkey⟩

theorem Adjacent.right_mem (h : Adjacent key j k l) : k ∈ l.filterMap key := by
  obtain ⟨a, ha, hkey⟩ := List.mem_map.1 (h.subset (List.mem_cons_of_mem _ List.mem_cons_self))
  exact List.mem_filterMap.2 ⟨a, ha, hkey⟩

/-- Putting one at an end leaves neighbours. -/
theorem Adjacent.cons (h : Adjacent key j k l) (w : α) : Adjacent key j k (w :: l) := by
  rw [Adjacent, List.map_cons]
  exact h.trans (List.suffix_cons _ _).isInfix

theorem Adjacent.concat (h : Adjacent key j k l) (w : α) : Adjacent key j k (l ++ [w]) := by
  rw [Adjacent, List.map_append]
  exact h.trans (List.prefix_append _ _).isInfix

/-- Replacing one by another of its key leaves neighbours. -/
theorem Adjacent.replace (h : Adjacent key j k (l₁ ++ b :: l₂)) (hw : key w = key b) :
    Adjacent key j k (l₁ ++ w :: l₂) := by
  rw [Adjacent, List.map_append, List.map_cons] at h ⊢
  rwa [hw]

/-- What is put before an element is next to it, -/
theorem adjacent_before (hw : key w = some j) (ha : key a = some k) :
    Adjacent key j k (l₁ ++ w :: a :: l₂) := by
  refine ⟨l₁.map key, l₂.map key, ?_⟩
  simp [hw, ha]

/-- and so is what is put after one. -/
theorem adjacent_after (ha : key a = some j) (hw : key w = some k) :
    Adjacent key j k ((l₁ ++ [a]) ++ w :: l₂) := by
  refine ⟨l₁.map key, l₂.map key, ?_⟩
  simp [hw, ha]

/-! ### What is taken out -/

variable [DecidableEq κ]

/-- The list without the elements of a key. -/
def without (key : α → Option κ) (k : κ) (l : List α) : List α :=
  l.filter fun a => key a ≠ some k

theorem mem_without : a ∈ without key k l ↔ a ∈ l ∧ key a ≠ some k := by
  simp [without]

theorem notMem_keys_without : k ∉ (without key k l).filterMap key := by
  simp [List.mem_filterMap, mem_without]

theorem without_eq_self (h : k ∉ l.filterMap key) : without key k l = l := by
  refine List.filter_eq_self.2 fun a ha => decide_eq_true fun hkey => h ?_
  exact List.mem_filterMap.2 ⟨a, ha, hkey⟩

theorem UniqueKeys.without (h : UniqueKeys key l) : UniqueKeys key (without key k l) :=
  List.Nodup.sublist (List.filter_sublist.filterMap key) h

theorem without_split (hb : key b = some k) (h₁ : k ∉ l₁.filterMap key)
    (h₂ : k ∉ l₂.filterMap key) : Foundations.without key k (l₁ ++ b :: l₂) = l₁ ++ l₂ := by
  rw [Foundations.without, List.filter_append, List.filter_cons_of_neg (by simpa using hb)]
  exact congrArg₂ _ (without_eq_self h₁) (without_eq_self h₂)

/-- What holds of no element of the key does not see it go. -/
theorem filter_without {p : α → Bool} (hp : ∀ a, key a = some k → p a = false) :
    (Foundations.without key k l).filter p = l.filter p := by
  rw [Foundations.without, List.filter_filter]
  refine List.filter_congr fun a _ => ?_
  by_cases ha : key a = some k
  · simp [hp a ha]
  · simp [ha]

/-- Taking another element out leaves neighbours. -/
theorem Adjacent.without (h : Adjacent key j k l) (hj : i ≠ j) (hk : i ≠ k) :
    Adjacent key j k (Foundations.without key i l) := by
  have hmap : (Foundations.without key i l).map key = (l.map key).filter (· ≠ some i) := by
    rw [List.filter_map]
    rfl
  have hkept := List.IsInfix.filter (· ≠ some i) h
  rw [Adjacent, hmap]
  simpa [hj.symm, hk.symm] using hkept

/-! ### Edits in turn -/

section Edits

variable {ε : Type*} (ident : α → κ) (target : ε → κ) (edit : ε → α → α)

/-- The list with the element that an edit is for edited. -/
def editAt (l : List α) (e : ε) : List α :=
  l.map fun a => if ident a = target e then edit e a else a

/-- What the edits make of one element. -/
def edited (edits : List ε) (a : α) : α :=
  ((edits.find? fun e => target e = ident a).map (edit · a)).getD a

variable {ident target edit}

/-- **Edits of different elements**, one after the other, are one pass over the list. -/
theorem foldl_editAt (hident : ∀ e a, ident (edit e a) = ident a) {edits : List ε}
    (hdistinct : (edits.map target).Nodup) (l : List α) :
    edits.foldl (editAt ident target edit) l = l.map (edited ident target edit edits) := by
  induction edits generalizing l with
  | nil => exact (List.map_id _).symm
  | cons e edits ih =>
    rw [List.map_cons, List.nodup_cons] at hdistinct
    rw [List.foldl_cons, ih hdistinct.2, editAt, List.map_map]
    refine List.map_congr_left fun a _ => ?_
    by_cases ha : ident a = target e
    · -- No later edit is for the same element.
      have hnone : (edits.find? fun e' => target e' = ident (edit e a)) = none := by
        refine List.find?_eq_none.2 fun e' he' heq => hdistinct.1 ?_
        rw [← ha, ← hident e a, ← of_decide_eq_true heq]
        exact List.mem_map_of_mem he'
      have hhead : ((e :: edits).find? fun e' => target e' = ident a) = some e :=
        List.find?_cons_of_pos (decide_eq_true ha.symm)
      rw [Function.comp_apply, if_pos ha, edited, hnone, edited, hhead]
      rfl
    · have htail : ((e :: edits).find? fun e' => target e' = ident a) =
          edits.find? fun e' => target e' = ident a :=
        List.find?_cons_of_neg (by simpa using fun h => ha h.symm)
      rw [Function.comp_apply, if_neg ha, edited, edited, htail]

end Edits

end Foundations
