import Munin.Foundations.KeyOrder

/-!
# Values that may be undefined

JavaScript's values are those of JSON and `undefined`, which a field of an object or an item of an
array may have. `JSON.stringify` leaves out such fields, and writes such items as `null`.

* **`JsValue.Same`** — equality up to the order of fields and undefined ones: the least congruence
  that disregards the two.
* **`Same.congr_obj`**, **`Same.congr_arr`** — values are the same if their fields or items are.
* **`Plain`** — no item of an array is undefined, nor the value itself.
* **`same_toJson`** — a plain value is the same as the JSON value that it is written as.
* **`same_sortedBy`**, **`same_stored`** — sorting the keys of all objects makes the same value, and
  so does storing it in a `jsonb` column.
-/

namespace Foundations

/-- A value of JavaScript, without functions and the like. -/
inductive JsValue where
  | undefined
  | null
  | bool (b : Bool)
  | num (n : NumberText)
  | str (s : String)
  | arr (items : List JsValue)
  | obj (fields : List (String × JsValue))

namespace JsValue

/-- `v === undefined`. -/
def isUndefined : JsValue → Bool
  | undefined => true
  | _ => false

/-! ### The same values -/

/-- **Equality up to the order of fields and undefined ones**. -/
inductive Same : JsValue → JsValue → Prop
  | refl (v : JsValue) : Same v v
  | symm {v w : JsValue} (h : Same v w) : Same w v
  | trans {u v w : JsValue} (h : Same u v) (h' : Same v w) : Same u w
  | perm {fs gs : List (String × JsValue)} (h : fs.Perm gs) : Same (obj fs) (obj gs)
  | undef (fs : List (String × JsValue)) (k : String) (gs : List (String × JsValue)) :
    Same (obj (fs ++ (k, undefined) :: gs)) (obj (fs ++ gs))
  | field {v w : JsValue} (fs : List (String × JsValue)) (k : String)
    (gs : List (String × JsValue)) (h : Same v w) :
    Same (obj (fs ++ (k, v) :: gs)) (obj (fs ++ (k, w) :: gs))
  | item {v w : JsValue} (xs ys : List JsValue) (h : Same v w) :
    Same (arr (xs ++ v :: ys)) (arr (xs ++ w :: ys))

/-- Objects with the same values under the same keys are the same. -/
theorem Same.congr_obj {fs gs : List (String × JsValue)}
    (h : List.Forall₂ (fun f g => f.1 = g.1 ∧ Same f.2 g.2) fs gs) : Same (obj fs) (obj gs) := by
  have hafter : ∀ pre : List (String × JsValue), Same (obj (pre ++ fs)) (obj (pre ++ gs)) := by
    induction h with
    | nil => exact fun pre => .refl _
    | @cons f g fs gs hfg _ ih =>
      intro pre
      obtain ⟨k, v⟩ := f
      obtain ⟨l, w⟩ := g
      obtain ⟨rfl, hvw⟩ := hfg
      have hrest := ih (pre ++ [(k, w)])
      rw [List.append_assoc, List.append_assoc] at hrest
      exact (Same.field pre k fs hvw).trans hrest
  exact hafter []

/-- Arrays with the same items are the same. -/
theorem Same.congr_arr {xs ys : List JsValue} (h : List.Forall₂ Same xs ys) :
    Same (arr xs) (arr ys) := by
  have hafter : ∀ pre : List JsValue, Same (arr (pre ++ xs)) (arr (pre ++ ys)) := by
    induction h with
    | nil => exact fun pre => .refl _
    | @cons x y xs ys hxy _ ih =>
      intro pre
      have hrest := ih (pre ++ [y])
      rw [List.append_assoc, List.append_assoc] at hrest
      exact (Same.item pre xs hxy).trans hrest
  exact hafter []

/-- An object is the same without its undefined fields. -/
theorem Same.filter_defined (fs : List (String × JsValue)) :
    Same (obj fs) (obj (fs.filter fun f => !f.2.isUndefined)) := by
  have hafter : ∀ pre : List (String × JsValue),
      Same (obj (pre ++ fs)) (obj (pre ++ fs.filter fun f => !f.2.isUndefined)) := by
    induction fs with
    | nil => exact fun pre => .refl _
    | cons f fs ih =>
      intro pre
      obtain ⟨k, v⟩ := f
      cases hv : v.isUndefined with
      | true =>
        obtain rfl : v = undefined := by
          cases v <;> simp_all [isUndefined]
        rw [List.filter_cons_of_neg (by simp [isUndefined])]
        exact (Same.undef pre k fs).trans (ih pre)
      | false =>
        rw [List.filter_cons_of_pos (by simp [hv])]
        have hrest := ih (pre ++ [(k, v)])
        rwa [List.append_assoc, List.append_assoc] at hrest
  exact hafter []

/-- Only an undefined value is the same as one. -/
theorem Same.isUndefined_eq {v w : JsValue} (h : Same v w) : v.isUndefined = w.isUndefined := by
  induction h with
  | refl => rfl
  | symm _ ih => exact ih.symm
  | trans _ _ ih ih' => exact ih.trans ih'
  | _ => rfl

mutual

/-- How many items the arrays in a value have. -/
def itemCount : JsValue → ℕ
  | arr items => items.length + itemCountAll items
  | obj fields => itemCountValues fields
  | undefined | null | bool _ | num _ | str _ => 0

/-- Over the items of an array. -/
def itemCountAll : List JsValue → ℕ
  | [] => 0
  | x :: xs => x.itemCount + itemCountAll xs

/-- Over the values of an object. -/
def itemCountValues : List (String × JsValue) → ℕ
  | [] => 0
  | f :: fs => f.2.itemCount + itemCountValues fs

end

theorem itemCountAll_eq_sum (items : List JsValue) :
    itemCountAll items = (items.map itemCount).sum := by
  induction items with
  | nil => rfl
  | cons x xs ih => rw [itemCountAll, ih, List.map_cons, List.sum_cons]

theorem itemCountValues_eq_sum (fields : List (String × JsValue)) :
    itemCountValues fields = (fields.map fun f => f.2.itemCount).sum := by
  induction fields with
  | nil => rfl
  | cons f fs ih => rw [itemCountValues, ih, List.map_cons, List.sum_cons]

/-- The same values have equally many items. -/
theorem Same.itemCount_eq {v w : JsValue} (h : Same v w) : v.itemCount = w.itemCount := by
  induction h with
  | refl => rfl
  | symm _ ih => exact ih.symm
  | trans _ _ ih ih' => exact ih.trans ih'
  | perm h =>
    rw [itemCount, itemCount, itemCountValues_eq_sum, itemCountValues_eq_sum]
    exact (h.map _).sum_nat
  | undef fs k gs => simp [itemCount, itemCountValues_eq_sum]
  | field fs k gs _ ih => simp [itemCount, itemCountValues_eq_sum, ih]
  | item xs ys _ ih => simp [itemCount, itemCountAll_eq_sum, ih]

/-! ### Plain values -/

mutual

/-- Neither the value nor an item of an array in it is undefined. -/
def Plain : JsValue → Prop
  | undefined => False
  | arr items => PlainItems items
  | obj fields => PlainFields fields
  | null | bool _ | num _ | str _ => True

/-- All items are plain. -/
def PlainItems : List JsValue → Prop
  | [] => True
  | x :: xs => x.Plain ∧ PlainItems xs

/-- All values are plain, if they are not undefined. -/
def PlainFields : List (String × JsValue) → Prop
  | [] => True
  | f :: fs => (f.2.isUndefined = true ∨ f.2.Plain) ∧ PlainFields fs

end

mutual

/-- Every object in the value has each key at most once with a value. -/
def WellKeyed : JsValue → Prop
  | arr items => WellKeyedAll items
  | obj fields => ((fields.filter fun f => !f.2.isUndefined).map (·.1)).Nodup ∧
    WellKeyedValues fields
  | undefined | null | bool _ | num _ | str _ => True

/-- All items are. -/
def WellKeyedAll : List JsValue → Prop
  | [] => True
  | x :: xs => x.WellKeyed ∧ WellKeyedAll xs

/-- All values are. -/
def WellKeyedValues : List (String × JsValue) → Prop
  | [] => True
  | f :: fs => f.2.WellKeyed ∧ WellKeyedValues fs

end

theorem wellKeyedAll_iff (items : List JsValue) :
    WellKeyedAll items ↔ ∀ x ∈ items, x.WellKeyed := by
  induction items with
  | nil => simp [WellKeyedAll]
  | cons x xs ih => simp [WellKeyedAll, ih]

theorem wellKeyedValues_iff (fields : List (String × JsValue)) :
    WellKeyedValues fields ↔ ∀ f ∈ fields, f.2.WellKeyed := by
  induction fields with
  | nil => simp [WellKeyedValues]
  | cons f fs ih => simp [WellKeyedValues, ih]

/-! ### To JSON and back -/

mutual

/-- What `JSON.stringify` writes, read back: undefined fields are left out, and undefined items are
`null`. -/
def toJson : JsValue → Json
  | undefined | null => .null
  | bool b => .bool b
  | num n => .num n
  | str s => .str s
  | arr items => .arr (toJsonItems items)
  | obj fields => .obj (toJsonFields fields)

/-- Item by item. -/
def toJsonItems : List JsValue → List Json
  | [] => []
  | x :: xs => x.toJson :: toJsonItems xs

/-- Without the fields that are undefined. -/
def toJsonFields : List (String × JsValue) → List (String × Json)
  | [] => []
  | (k, x) :: fs => if x.isUndefined then toJsonFields fs else (k, x.toJson) :: toJsonFields fs

end

mutual

/-- A JSON value. -/
def ofJson : Json → JsValue
  | .null => null
  | .bool b => bool b
  | .num n => num n
  | .str s => str s
  | .arr items => arr (ofJsonItems items)
  | .obj fields => obj (ofJsonFields fields)

/-- Item by item. -/
def ofJsonItems : List Json → List JsValue
  | [] => []
  | x :: xs => ofJson x :: ofJsonItems xs

/-- Value by value. -/
def ofJsonFields : List (String × Json) → List (String × JsValue)
  | [] => []
  | (k, x) :: fs => (k, ofJson x) :: ofJsonFields fs

end

mutual

/-- **A plain value is the same as what it is written as**. -/
theorem same_toJson : ∀ {v : JsValue}, v.Plain → Same v (ofJson v.toJson)
  | undefined, h => h.elim
  | null, _ => .refl _
  | bool _, _ => .refl _
  | num _, _ => .refl _
  | str _, _ => .refl _
  | arr _, h => Same.congr_arr (same_toJsonItems h)
  | obj fields, h => (Same.filter_defined fields).trans (Same.congr_obj (same_toJsonFields h))

theorem same_toJsonItems : ∀ {items : List JsValue}, PlainItems items →
    List.Forall₂ Same items (ofJsonItems (toJsonItems items))
  | [], _ => .nil
  | _ :: _, h => .cons (same_toJson h.1) (same_toJsonItems h.2)

theorem same_toJsonFields : ∀ {fields : List (String × JsValue)}, PlainFields fields →
    List.Forall₂ (fun f g => f.1 = g.1 ∧ Same f.2 g.2)
      (fields.filter fun f => !f.2.isUndefined) (ofJsonFields (toJsonFields fields))
  | [], _ => .nil
  | (k, v) :: fs, h => by
    cases hv : v.isUndefined with
    | true =>
      rw [List.filter_cons_of_neg (by simp [hv]), toJsonFields, if_pos hv]
      exact same_toJsonFields h.2
    | false =>
      rw [List.filter_cons_of_pos (by simp [hv]), toJsonFields, if_neg (by simp [hv])]
      have hplain : v.Plain := h.1.resolve_left (by simp [hv])
      exact .cons ⟨rfl, same_toJson hplain⟩ (same_toJsonFields h.2)

end

end JsValue

/-! ### Sorted keys -/

mutual

/-- The value with the keys of every object sorted by a rank. -/
def Json.sortedBy (rank : String → List ℕ) : Json → Json
  | .arr items => .arr (sortedItems rank items)
  | .obj fields => .obj (sortFields rank (sortedFields rank fields))
  | .null => .null
  | .bool b => .bool b
  | .num n => .num n
  | .str s => .str s

/-- Item by item. -/
def sortedItems (rank : String → List ℕ) : List Json → List Json
  | [] => []
  | x :: xs => x.sortedBy rank :: sortedItems rank xs

/-- Value by value; the keys stay where they are. -/
def sortedFields (rank : String → List ℕ) : List (String × Json) → List (String × Json)
  | [] => []
  | (k, x) :: fs => (k, x.sortedBy rank) :: sortedFields rank fs

end

mutual

/-- A `jsonb` column sorts keys by its own rank. -/
theorem Json.jsonb_eq : ∀ v : Json, v.jsonb = v.sortedBy jsonbRank
  | .arr items => by rw [Json.jsonb, Json.sortedBy, jsonbItems_eq]
  | .obj fields => by rw [Json.jsonb, Json.sortedBy, jsonbFields_eq]
  | .null => rfl
  | .bool _ => rfl
  | .num _ => rfl
  | .str _ => rfl

theorem jsonbItems_eq : ∀ items : List Json, jsonbItems items = sortedItems jsonbRank items
  | [] => rfl
  | x :: xs => by rw [jsonbItems, sortedItems, Json.jsonb_eq x, jsonbItems_eq xs]

theorem jsonbFields_eq :
    ∀ fields : List (String × Json), jsonbFields fields = sortedFields jsonbRank fields
  | [] => rfl
  | (k, x) :: fs => by rw [jsonbFields, sortedFields, Json.jsonb_eq x, jsonbFields_eq fs]

end

namespace JsValue

theorem ofJsonFields_eq_map (fields : List (String × Json)) :
    ofJsonFields fields = fields.map fun f => (f.1, ofJson f.2) := by
  induction fields with
  | nil => rfl
  | cons f fs ih =>
    obtain ⟨k, x⟩ := f
    rw [ofJsonFields, ih, List.map_cons]

mutual

/-- **Sorting keys makes the same value**. -/
theorem same_sortedBy (rank : String → List ℕ) :
    ∀ v : Json, Same (ofJson v) (ofJson (v.sortedBy rank))
  | .arr items => Same.congr_arr (same_sortedItems rank items)
  | .obj fields => by
    have hsorted : (ofJsonFields (sortedFields rank fields)).Perm
        (ofJsonFields (sortFields rank (sortedFields rank fields))) := by
      rw [ofJsonFields_eq_map, ofJsonFields_eq_map]
      exact (sortFields_perm rank _).symm.map _
    exact (Same.congr_obj (same_sortedFields rank fields)).trans (.perm hsorted)
  | .null => .refl _
  | .bool _ => .refl _
  | .num _ => .refl _
  | .str _ => .refl _

theorem same_sortedItems (rank : String → List ℕ) : ∀ items : List Json,
    List.Forall₂ Same (ofJsonItems items) (ofJsonItems (sortedItems rank items))
  | [] => .nil
  | x :: xs => .cons (same_sortedBy rank x) (same_sortedItems rank xs)

theorem same_sortedFields (rank : String → List ℕ) : ∀ fields : List (String × Json),
    List.Forall₂ (fun f g => f.1 = g.1 ∧ Same f.2 g.2) (ofJsonFields fields)
      (ofJsonFields (sortedFields rank fields))
  | [] => .nil
  | (_, x) :: fs => .cons ⟨rfl, same_sortedBy rank x⟩ (same_sortedFields rank fs)

end

/-- What comes back from a `jsonb` column. -/
def stored (value : JsValue) : JsValue :=
  ofJson value.toJson.jsonb

/-- **Storing a plain value makes the same value**. -/
theorem same_stored {v : JsValue} (h : v.Plain) : Same v v.stored := by
  rw [stored, Json.jsonb_eq]
  exact (same_toJson h).trans (same_sortedBy jsonbRank _)

end JsValue

end Foundations
