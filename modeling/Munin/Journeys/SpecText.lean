import Munin.Foundations.JsValue
import Munin.Journeys.SpecHash

/-!
# The canonical text of specs

`canonicalJson` is handed values of JavaScript: what an editor sends may have undefined fields, which
it leaves out. The text of such a value is that of the JSON value that it is written as.

* **`canonicalJsonOf`, `hashSpecOf`** — the functions on all values; `canonicalText_of_plain`
  connects them to those on JSON.
* **`canonicalChars_eq_render`** — the canonical text is the text of the value with sorted keys, so
  it determines that.
* **`spec_text_canonical`** — texts are equal if and only if the specs are the same, and so are
  hashes; storing a spec keeps its hash.
* **`undefined_item_lost`** — an undefined item of an array has an empty text.
-/

namespace Munin

open Foundations

/-! ### The functions on values -/

mutual

/-- The characters of `canonicalJson`, none for `undefined`. `join` takes those for an empty text. -/
def canonicalText : JsValue → Option (List Char)
  | .undefined => none
  | .arr items => some ('[' :: List.intercalate [','] (canonicalTexts items) ++ [']'])
  | .obj fields => some ('{' :: fieldsText (sortFields utf16 (canonicalEntries fields)) ++ ['}'])
  | .null => some Json.null.render
  | .bool b => some (Json.bool b).render
  | .num n => some (Json.num n).render
  | .str s => some (Json.str s).render

def canonicalTexts : List JsValue → List (List Char)
  | [] => []
  | x :: xs => (canonicalText x).getD [] :: canonicalTexts xs

def canonicalEntries : List (String × JsValue) → List (String × List Char)
  | [] => []
  | (k, x) :: fs =>
    if x.isUndefined then canonicalEntries fs
    else (k, (canonicalText x).getD []) :: canonicalEntries fs

end

/-- `canonicalJson`. -/
def canonicalJsonOf (value : JsValue) : Option String :=
  (canonicalText value).map .ofList

/-- `hashSpec`, which throws at `undefined`. -/
def hashSpecOf (sha256Hex : String → String) (spec : JsValue) : Option String :=
  (canonicalJsonOf spec).map sha256Hex

/-! ### Texts and JSON values -/

mutual

/-- **The text of a plain value** is that of what it is written as. -/
theorem canonicalText_of_plain : ∀ {v : JsValue}, v.Plain →
    canonicalText v = some (canonicalChars v.toJson)
  | .undefined, h => h.elim
  | .null, _ => rfl
  | .bool _, _ => rfl
  | .num _, _ => rfl
  | .str _, _ => rfl
  | .arr items, h => by
    rw [canonicalText, JsValue.toJson, canonicalChars, canonicalTexts_of_plain h]
  | .obj fields, h => by
    rw [canonicalText, JsValue.toJson, canonicalChars, canonicalEntries_of_plain h]

theorem canonicalTexts_of_plain : ∀ {items : List JsValue}, JsValue.PlainItems items →
    canonicalTexts items = canonicalItems (JsValue.toJsonItems items)
  | [], _ => rfl
  | x :: xs, h => by
    rw [canonicalTexts, JsValue.toJsonItems, canonicalItems, canonicalText_of_plain h.1,
      canonicalTexts_of_plain h.2, Option.getD_some]

theorem canonicalEntries_of_plain : ∀ {fields : List (String × JsValue)},
    JsValue.PlainFields fields →
      canonicalEntries fields = canonicalFields (JsValue.toJsonFields fields)
  | [], _ => rfl
  | (k, x) :: fs, h => by
    rw [canonicalEntries, JsValue.toJsonFields]
    cases hx : x.isUndefined with
    | true =>
      rw [if_pos rfl, if_pos rfl]
      exact canonicalEntries_of_plain h.2
    | false =>
      have hplain : x.Plain := h.1.resolve_left (by simp [hx])
      rw [if_neg (by simp), if_neg (by simp), canonicalFields, canonicalText_of_plain hplain,
        canonicalEntries_of_plain h.2, Option.getD_some]

end

/-- The items of an array, as a join. -/
theorem renderItems_eq (items : List Json) :
    renderItems items = List.intercalate [','] (items.map Json.render) ++ [']'] := by
  have hmore (items : List Json) (first : List Char) : first ++ renderMoreItems items =
      List.intercalate [','] (first :: items.map Json.render) ++ [']'] := by
    induction items generalizing first with
    | nil => simp [renderMoreItems]
    | cons x xs ih =>
      rw [renderMoreItems, ih, List.map_cons]
      simp [List.intercalate]
  cases items with
  | nil => rfl
  | cons x xs => rw [renderItems, hmore, List.map_cons]

/-- The fields of an object, as a join. -/
theorem renderFields_eq (fields : List (String × Json)) :
    renderFields fields = fieldsText (fields.map fun f => (f.1, f.2.render)) ++ ['}'] := by
  have hmore (fields : List (String × Json)) (first : List Char) :
      first ++ renderMoreFields fields = List.intercalate [',']
        (first :: fields.map fun f => quote f.1 ++ ':' :: f.2.render) ++ ['}'] := by
    induction fields generalizing first with
    | nil => simp [renderMoreFields]
    | cons f fs ih =>
      have hfield : quote f.1 ++ ':' :: (f.2.render ++ renderMoreFields fs) =
          (quote f.1 ++ ':' :: f.2.render) ++ renderMoreFields fs := by simp
      rw [renderMoreFields, hfield, ih, List.map_cons]
      simp [List.intercalate]
  rw [fieldsText, List.map_map]
  cases fields with
  | nil => rfl
  | cons f fs =>
    have hfield : quote f.1 ++ ':' :: (f.2.render ++ renderMoreFields fs) =
        (quote f.1 ++ ':' :: f.2.render) ++ renderMoreFields fs := by simp
    rw [renderFields, hfield, hmore, List.map_cons]
    rfl

mutual

/-- **The canonical text is the text of the value with sorted keys**. -/
theorem canonicalChars_eq_render : ∀ v : Json, canonicalChars v = (v.sortedBy utf16).render
  | .arr items => by
    rw [canonicalChars, Json.sortedBy, Json.render, renderItems_eq, canonicalItems_eq_render items]
    rfl
  | .obj fields => by
    rw [canonicalChars, Json.sortedBy, Json.render, renderFields_eq,
      canonicalFields_eq_render fields, sortFields_map]
    rfl
  | .null => rfl
  | .bool _ => rfl
  | .num _ => rfl
  | .str _ => rfl

theorem canonicalItems_eq_render : ∀ items : List Json,
    canonicalItems items = (sortedItems utf16 items).map Json.render
  | [] => rfl
  | x :: xs => by
    rw [canonicalItems, sortedItems, List.map_cons, canonicalChars_eq_render x,
      canonicalItems_eq_render xs]

theorem canonicalFields_eq_render : ∀ fields : List (String × Json),
    canonicalFields fields = (sortedFields utf16 fields).map fun f => (f.1, f.2.render)
  | [] => rfl
  | (k, x) :: fs => by
    rw [canonicalFields, sortedFields, List.map_cons, canonicalChars_eq_render x,
      canonicalFields_eq_render fs]

end

/-! ### Texts and the same values -/

theorem canonicalEntries_eq (fields : List (String × JsValue)) :
    canonicalEntries fields = (fields.filter fun f => !f.2.isUndefined).map fun f =>
      (f.1, (canonicalText f.2).getD []) := by
  induction fields with
  | nil => rfl
  | cons f fs ih =>
    obtain ⟨k, x⟩ := f
    cases hx : x.isUndefined with
    | true => rw [canonicalEntries, if_pos hx, ih, List.filter_cons_of_neg (by simp [hx])]
    | false =>
      rw [canonicalEntries, if_neg (by simp [hx]), ih, List.filter_cons_of_pos (by simp [hx]),
        List.map_cons]

theorem canonicalTexts_eq (items : List JsValue) :
    canonicalTexts items = items.map fun x => (canonicalText x).getD [] := by
  induction items with
  | nil => rfl
  | cons x xs ih => rw [canonicalTexts, ih, List.map_cons]

variable {v w : JsValue}

/-- **The same values have one text**, whose objects have each key once. -/
theorem canonicalText_congr (h : JsValue.Same v w) :
    (v.WellKeyed ↔ w.WellKeyed) ∧ (v.WellKeyed → canonicalText v = canonicalText w) := by
  induction h with
  | refl v => exact ⟨Iff.rfl, fun _ => rfl⟩
  | symm _ ih => exact ⟨ih.1.symm, fun hw => (ih.2 (ih.1.2 hw)).symm⟩
  | trans _ _ ih ih' =>
    exact ⟨ih.1.trans ih'.1, fun hu => (ih.2 hu).trans (ih'.2 (ih.1.1 hu))⟩
  | @perm fs gs h =>
    have hdefined := h.filter fun f => !f.2.isUndefined
    constructor
    · simp only [JsValue.WellKeyed, JsValue.wellKeyedValues_iff, h.mem_iff,
        (hdefined.map (·.1)).nodup_iff]
    · intro hkeyed
      rw [canonicalText, canonicalText, canonicalEntries_eq, canonicalEntries_eq,
        sortFields_congr utf16_injective _ (hdefined.map _)]
      rw [List.map_map]
      exact hkeyed.1
  | undef fs k gs =>
    constructor
    · simp [JsValue.WellKeyed, JsValue.wellKeyedValues_iff, JsValue.isUndefined, or_imp,
        forall_and]
    · intro _
      rw [canonicalText, canonicalText, canonicalEntries_eq, canonicalEntries_eq]
      simp [JsValue.isUndefined]
  | @field v w fs k gs h ih =>
    have hsame : w.isUndefined = v.isUndefined := h.isUndefined_eq.symm
    constructor
    · have hkeys : ((fs ++ (k, w) :: gs).filter fun f => !f.2.isUndefined).map (·.1) =
          ((fs ++ (k, v) :: gs).filter fun f => !f.2.isUndefined).map (·.1) := by
        cases hv : v.isUndefined <;> simp [hsame, hv]
      simp only [JsValue.WellKeyed, hkeys, JsValue.wellKeyedValues_iff]
      simp [or_imp, forall_and, ih.1]
    · intro hkeyed
      have hv : v.WellKeyed := (JsValue.wellKeyedValues_iff _).1 hkeyed.2 (k, v) (by simp)
      have hentries : canonicalEntries (fs ++ (k, v) :: gs) =
          canonicalEntries (fs ++ (k, w) :: gs) := by
        rw [canonicalEntries_eq, canonicalEntries_eq]
        cases hu : v.isUndefined <;> simp [hsame, hu, ih.2 hv]
      rw [canonicalText, canonicalText, hentries]
  | @item v w xs ys h ih =>
    constructor
    · simp [JsValue.WellKeyed, JsValue.wellKeyedAll_iff, or_imp, forall_and, ih.1]
    · intro hkeyed
      have hv : v.WellKeyed := (JsValue.wellKeyedAll_iff _).1 hkeyed v (by simp)
      rw [canonicalText, canonicalText, canonicalTexts_eq, canonicalTexts_eq]
      simp [ih.2 hv]

/-- **Texts tell plain values apart**. -/
theorem same_of_canonicalText (hv : v.Plain) (hw : w.Plain)
    (h : canonicalText v = canonicalText w) : JsValue.Same v w := by
  rw [canonicalText_of_plain hv, canonicalText_of_plain hw, Option.some_inj,
    canonicalChars_eq_render, canonicalChars_eq_render] at h
  have hsorted : v.toJson.sortedBy utf16 = w.toJson.sortedBy utf16 :=
    Json.stringify_injective (congrArg String.ofList h)
  have hto : JsValue.Same v (.ofJson (v.toJson.sortedBy utf16)) :=
    (JsValue.same_toJson hv).trans (JsValue.same_sortedBy utf16 _)
  have hfrom : JsValue.Same w (.ofJson (v.toJson.sortedBy utf16)) := by
    rw [hsorted]
    exact (JsValue.same_toJson hw).trans (JsValue.same_sortedBy utf16 _)
  exact hto.trans hfrom.symm

theorem canonicalJsonOf_eq_iff :
    canonicalJsonOf v = canonicalJsonOf w ↔ canonicalText v = canonicalText w := by
  rw [canonicalJsonOf, canonicalJsonOf]
  exact (Option.map_injective fun _ _ => String.ofList_injective).eq_iff

/-! ### The law of the canonical text -/

/-- A spec, as a value: no item of an array in it is undefined, and an object has each key once. -/
structure SpecValue where
  value : JsValue
  plain : value.Plain
  wellKeyed : value.WellKeyed

/-- **The canonical text is canonical**: for every two specs, the texts are equal if and only if the
specs are, up to the order of keys and undefined fields; storing a spec keeps its hash; and where the
digest does not confuse the two texts, any other change changes the hash. -/
theorem spec_text_canonical (sha256Hex : String → String) (a b : SpecValue)
    (hsha : ∀ s ∈ canonicalJsonOf a.value, ∀ t ∈ canonicalJsonOf b.value,
      sha256Hex s = sha256Hex t → s = t) :
    (canonicalJsonOf a.value = canonicalJsonOf b.value ↔ JsValue.Same a.value b.value) ∧
      hashSpecOf sha256Hex a.value.stored = hashSpecOf sha256Hex a.value ∧
      (hashSpecOf sha256Hex a.value = hashSpecOf sha256Hex b.value ↔
        JsValue.Same a.value b.value) := by
  have htext : canonicalJsonOf a.value = canonicalJsonOf b.value ↔ JsValue.Same a.value b.value := by
    rw [canonicalJsonOf_eq_iff]
    exact ⟨same_of_canonicalText a.plain b.plain,
      fun h => (canonicalText_congr h).2 a.wellKeyed⟩
  refine ⟨htext, ?_, ?_⟩
  · have hstored := (canonicalText_congr (JsValue.same_stored a.plain)).2 a.wellKeyed
    rw [hashSpecOf, hashSpecOf, canonicalJsonOf, canonicalJsonOf, hstored]
  · rw [← htext]
    constructor
    · intro h
      obtain ⟨s, hs⟩ : ∃ s, canonicalJsonOf a.value = some s :=
        ⟨_, by rw [canonicalJsonOf, canonicalText_of_plain a.plain]; rfl⟩
      obtain ⟨t, ht⟩ : ∃ t, canonicalJsonOf b.value = some t :=
        ⟨_, by rw [canonicalJsonOf, canonicalText_of_plain b.plain]; rfl⟩
      rw [hashSpecOf, hashSpecOf, hs, ht] at h
      rw [hs, ht, hsha s hs t ht (Option.some.inj h)]
    · intro h
      rw [hashSpecOf, hashSpecOf, h]

/-- A spec with a bracket for a name, and an undefined field. -/
def bracketSpec (name : String) : SpecValue where
  value := .obj [("b", .str name), ("a", .undefined)]
  plain := ⟨Or.inr trivial, Or.inl rfl, trivial⟩
  wellKeyed := by
    simp [JsValue.WellKeyed, JsValue.WellKeyedValues, JsValue.isUndefined]

/-- The digests of the texts of two such specs. -/
def bracketDigest (s : String) : String :=
  if s = "\x7b\"b\":\"]\"\x7d" then
    "791ab8d7e5257eb0ef8b39710287544d944ad5f9e7608023bfc58225f43c237e"
  else "8afeb035f0ff78ca28dbf82b564c5bdc0ab42a85523e769af384ea7cbf96b6dd"

theorem spec_text_canonical_sample :
    hashSpecOf bracketDigest (bracketSpec "]").value.stored =
        hashSpecOf bracketDigest (bracketSpec "]").value ∧
      ¬ JsValue.Same (bracketSpec "]").value (bracketSpec "[").value := by
  have hlaw := spec_text_canonical bracketDigest (bracketSpec "]") (bracketSpec "[")
    (by decide +kernel)
  exact ⟨hlaw.2.1, fun hsame => absurd (hlaw.1.2 hsame) (by decide +kernel)⟩

/-- **An undefined item is lost**: a list of nodes with nothing but an undefined one has the text of
an empty list, which is another spec; and what is stored of it has another hash. -/
theorem undefined_item_lost :
    let lost : JsValue := .obj [("nodes", .arr [.undefined])]
    let empty : JsValue := .obj [("nodes", .arr [])]
    lost.WellKeyed ∧ empty.WellKeyed ∧ canonicalJsonOf lost = canonicalJsonOf empty ∧
      ¬ JsValue.Same lost empty ∧ canonicalJsonOf lost.stored ≠ canonicalJsonOf lost := by
  refine ⟨?_, ?_, by decide +kernel, fun hsame => ?_, by decide +kernel⟩
  · simp [JsValue.WellKeyed, JsValue.WellKeyedAll, JsValue.WellKeyedValues, JsValue.isUndefined]
  · simp [JsValue.WellKeyed, JsValue.WellKeyedAll, JsValue.WellKeyedValues, JsValue.isUndefined]
  · exact absurd hsame.itemCount_eq (by decide)

end Munin
