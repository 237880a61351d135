import Munin.Foundations.KeyOrder

/-!
# Hashing specs

A spec is hashed through its canonical text: the compact JSON text with the keys of every object in
order. The spec that is hashed when a draft is written is the value an editor sends; the one hashed
when it is published was read back from a `jsonb` column, which keeps keys in an order of its own.
The two have one hash, because they have one canonical text (`hashSpec_jsonb`).
-/

namespace Munin

open Foundations

/-! ### The canonical text -/

/-- The fields of an object, from their keys and the texts of their values. -/
def fieldsText (fields : List (String × List Char)) : List Char :=
  List.intercalate [','] (fields.map fun f => quote f.1 ++ ':' :: f.2)

mutual

/-- The characters of `canonicalJson`. The texts of an object's values are taken before its fields
are sorted, which comes to the same. -/
def canonicalChars : Json → List Char
  | .arr items => '[' :: List.intercalate [','] (canonicalItems items) ++ [']']
  | .obj fields => '{' :: fieldsText (sortFields utf16 (canonicalFields fields)) ++ ['}']
  | .null => Json.null.render
  | .bool b => (Json.bool b).render
  | .num n => (Json.num n).render
  | .str s => (Json.str s).render

def canonicalItems : List Json → List (List Char)
  | [] => []
  | x :: xs => canonicalChars x :: canonicalItems xs

def canonicalFields : List (String × Json) → List (String × List Char)
  | [] => []
  | (k, x) :: fs => (k, canonicalChars x) :: canonicalFields fs

end

/-- `canonicalJson`. -/
def canonicalJson (value : Json) : String :=
  .ofList (canonicalChars value)

example : canonicalJson (.obj [("b", .null), ("a", .arr [.bool true, .str "x"])]) =
    "\x7b\"a\":[true,\"x\"],\"b\":null\x7d" := by
  decide

/-- `hashSpec`. -/
def hashSpec (sha256Hex : String → String) (spec : Json) : String :=
  sha256Hex (canonicalJson spec)

/-! ### Storage keeps the canonical text -/

theorem canonicalFields_eq_map (fields : List (String × Json)) :
    canonicalFields fields = fields.map fun f => (f.1, canonicalChars f.2) := by
  induction fields with
  | nil => rfl
  | cons f fs ih =>
    obtain ⟨k, x⟩ := f
    rw [canonicalFields, ih, List.map_cons]

/-- Two objects with the same fields in any order have the same canonical text. -/
theorem sortFields_canonicalFields {fields fields' : List (String × Json)}
    (hnodup : (fields.map (·.1)).Nodup) (hperm : fields.Perm fields') :
    sortFields utf16 (canonicalFields fields) = sortFields utf16 (canonicalFields fields') := by
  rw [canonicalFields_eq_map, canonicalFields_eq_map]
  refine sortFields_congr utf16_injective ?_ (hperm.map _)
  rw [List.map_map]
  exact hnodup

mutual

/-- **What a `jsonb` column returns has the canonical text of what was stored.** -/
theorem canonicalChars_jsonb :
    ∀ value : Json, value.WellKeyed → canonicalChars value.jsonb = canonicalChars value
  | .arr items, h => by
    rw [Json.jsonb, canonicalChars, canonicalChars, canonicalItems_jsonb items h]
  | .obj fields, h => by
    have hkeys : ((jsonbFields fields).map (·.1)).Nodup := by
      rw [jsonbFields_eq_map, List.map_map]
      exact h.1
    have hsort := sortFields_canonicalFields
      (((sortFields_perm jsonbRank (jsonbFields fields)).map _).nodup_iff.2 hkeys)
      (sortFields_perm jsonbRank (jsonbFields fields))
    rw [Json.jsonb, canonicalChars, canonicalChars, hsort, canonicalFields_jsonb fields h.2]
  | .null, _ => rfl
  | .bool _, _ => rfl
  | .num _, _ => rfl
  | .str _, _ => rfl

theorem canonicalItems_jsonb :
    ∀ items : List Json, WellKeyedItems items →
      canonicalItems (jsonbItems items) = canonicalItems items
  | [], _ => rfl
  | x :: xs, h => by
    rw [jsonbItems, canonicalItems, canonicalItems, canonicalChars_jsonb x h.1,
      canonicalItems_jsonb xs h.2]

theorem canonicalFields_jsonb :
    ∀ fields : List (String × Json), WellKeyedFields fields →
      canonicalFields (jsonbFields fields) = canonicalFields fields
  | [], _ => rfl
  | (k, x) :: fs, h => by
    rw [jsonbFields, canonicalFields, canonicalFields, canonicalChars_jsonb x h.1,
      canonicalFields_jsonb fs h.2]

end

/-- **Storing a spec keeps its hash.** -/
theorem hashSpec_jsonb (sha256Hex : String → String) {spec : Json} (h : spec.WellKeyed) :
    hashSpec sha256Hex spec.jsonb = hashSpec sha256Hex spec := by
  rw [hashSpec, hashSpec, canonicalJson, canonicalJson, canonicalChars_jsonb spec h]

end Munin
