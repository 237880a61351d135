import Munin.Cms.Entry
import Munin.Foundations.TextMarks

/-!
# CMS fields and the ids in them

A collection lists its fields; the data of an entry has a value for each of them. Fields refer to
assets and entries: by id, by lists of ids, by `asset://` and `ref://` marks in a prose, and by the
same in the properties of blocks. The functions that list such ids go through the data in the same
way, field by field and into the blocks, and differ in what they find in the value of a field that
has no blocks.

* **`FieldDef`** — a field, with the types of its blocks.
* **`leaves`** — the values below the blocks, with their fields.
* **`extractAssetReferences`** — the uses of assets.
* **`listIdReferences`** — all ids that the data refers to.

Labels, descriptions, defaults, `localized` and `targetCollection` play no part in any of them.
-/

namespace Munin

open Foundations

/-! ### Field definitions -/

/-- `FIELD_TYPES`. -/
inductive FieldType where
  | text
  | richText
  | markdown
  | number
  | integer
  | boolean
  | date
  | datetime
  | select
  | multiSelect
  | asset
  | reference
  | array
  | blocks
  | json
  deriving DecidableEq

/-- A type of block, with fields of its own. -/
structure BlockTypeDef (α : Type) where
  name : String
  fields : List α

/-- What the types of some fields need. -/
structure FieldOptions (α : Type) where
  choices : List String := []
  items : Option α := none
  blockTypes : List (BlockTypeDef α) := []

/-- A field of a collection, or of a type of block. -/
structure FieldDef where
  name : String
  type : FieldType
  required : Bool := false
  inlineRefs : Bool := false
  options : FieldOptions FieldDef := {}

/-- `field.options?.items?.type`. -/
def FieldDef.itemsType (field : FieldDef) : Option FieldType := field.options.items.map (·.type)

/-- `INLINE_PROSE_FIELD_TYPES`. -/
def FieldType.isProse : FieldType → Bool
  | .richText | .markdown => true
  | _ => false

/-- `INLINE_REF_OPT_IN_TYPES`. -/
def FieldType.optsIn : FieldType → Bool
  | .text | .richText | .markdown => true
  | _ => false

def canCarryInlineRefs (field : FieldDef) : Bool :=
  match field.type with
  | .array => field.itemsType.any (·.optsIn)
  | type => type.optsIn

def carriesInlineRefs (field : FieldDef) : Bool :=
  field.type.isProse || (field.inlineRefs && canCarryInlineRefs field)

/-! ### Marks in texts -/

/-- `[A-Za-z0-9_]`. -/
def isIdChar (c : Char) : Bool := c.isAlphanum || c == '_'

/-- `ASSET_URI_PATTERN`. -/
def assetUri : Marks Char := ⟨"asset://".toList, isIdChar, by decide⟩

/-- `REF_URI_PATTERN`. -/
def refUri : Marks Char := ⟨"ref://".toList, isIdChar, by decide⟩

/-- The ids of the marks of a text. -/
def uriIds (uri : Marks Char) (s : String) : List String := (uri.words s.toList).map .ofList

def inlineAssetIdsIn : Json → List String
  | .str s => uriIds assetUri s
  | _ => []

mutual

def inlineRefIdsIn : Json → List String
  | .str s => uriIds refUri s
  | .arr items => inlineRefIdsInItems items
  | _ => []

/-- `flatMap(inlineRefIdsIn)`. -/
def inlineRefIdsInItems : List Json → List String
  | [] => []
  | item :: items => inlineRefIdsIn item ++ inlineRefIdsInItems items

end

/-! ### Objects and blocks -/

/-- The value of a key, unless it is undefined or null. -/
def present (data : JsonObject) (key : String) : Option Json :=
  match data.lookup key with
  | none | some .null => none
  | some value => some value

/-- A block: its type and its properties. -/
structure BlockInstance where
  type : String
  props : JsonObject

def asBlock : Json → Option BlockInstance
  | .obj block =>
    match block.lookup "type" with
    | some (.str type) =>
      match block.lookup "props" with
      | some (.obj props) => some ⟨type, props⟩
      | _ => some ⟨type, []⟩
    | _ => none
  | _ => none

/-! ### The way through the data -/

mutual

/-- The values below the blocks, with their fields. -/
def leaves : List FieldDef → JsonObject → List (FieldDef × Json)
  | [], _ => []
  | field :: fields, data =>
    (match present data field.name with
      | none => []
      | some value => valueLeaves field value) ++ leaves fields data

/-- The values below the blocks of a value. -/
def valueLeaves : FieldDef → Json → List (FieldDef × Json)
  | field@⟨_, type, _, _, ⟨_, _, blockTypes⟩⟩, value =>
    match type, value with
    | .blocks, .arr raws => raws.flatMap (blockLeaves blockTypes)
    | .blocks, _ => []
    | _, _ => [(field, value)]

/-- The values of the properties of a block, if its type is known. -/
def blockLeaves : List (BlockTypeDef FieldDef) → Json → List (FieldDef × Json)
  | [], _ => []
  | ⟨name, fields⟩ :: types, raw =>
    match asBlock raw with
    | none => []
    | some block =>
      if name = block.type then leaves fields block.props else blockLeaves types raw

end

/-- What the values below the blocks of the data hold, by the name of the outer field. -/
def extract {α : Type} (uses : FieldDef → Json → List α) (fields : List FieldDef)
    (data : JsonObject) : List (String × α) :=
  fields.flatMap fun field =>
    match present data field.name with
    | none => []
    | some value =>
      ((valueLeaves field value).flatMap fun (f, v) => uses f v).map fun use => (field.name, use)

/-! ### Assets -/

/-- How an asset is used. -/
inductive AssetUseKind where
  | field
  | inline
  deriving DecidableEq

/-- A use of an asset in the data of an entry. -/
structure AssetUse where
  fieldName : String
  assetId : String
  position : ℕ
  kind : AssetUseKind
  deriving DecidableEq

/-- The assets in the value of a field, with their positions. -/
def assetUses (field : FieldDef) (value : Json) : List (String × ℕ × AssetUseKind) :=
  match field.type, value with
  | .asset, .str id => [(id, 0, .field)]
  | .array, .arr values =>
    if field.itemsType = some .asset then
      values.zipIdx.filterMap fun
        | (.str id, i) => some (id, i, .field)
        | _ => none
    else []
  | .richText, value | .markdown, value =>
    (inlineAssetIdsIn value).zipIdx.map fun (id, i) => (id, i, .inline)
  | _, _ => []

/-- The assets in the value of an outer field: those in blocks have the position of their block. -/
def fieldAssetUses (field : FieldDef) (value : Json) : List AssetUse :=
  match field.type, value with
  | .blocks, .arr raws =>
    raws.zipIdx.flatMap fun (raw, index) =>
      (blockLeaves field.options.blockTypes raw).flatMap fun (f, v) =>
        (assetUses f v).map fun (id, _, kind) => ⟨field.name, id, index, kind⟩
  | .blocks, _ => []
  | _, _ => (assetUses field value).map fun (id, position, kind) => ⟨field.name, id, position, kind⟩

def extractAssetReferences (fields : List FieldDef) (data : JsonObject) : List AssetUse :=
  fields.flatMap fun field => (present data field.name).elim [] (fieldAssetUses field)

/-! ### References -/

/-- The entries in the value of a field. -/
def entryUses (field : FieldDef) (value : Json) : List String :=
  match field.type, value with
  | .reference, .str id => [id]
  | .array, .arr values =>
    if field.itemsType = some .reference then
      values.filterMap fun
        | .str id => some id
        | _ => none
    else []
  | _, _ => []

/-- The names of the fields and the ids; the positions are read by nothing here. -/
def extractReferences : List FieldDef → JsonObject → List (String × String) := extract entryUses

/-- The entries that the marks in the value of a field name. -/
def inlineEntryUses (field : FieldDef) (value : Json) : List String :=
  if carriesInlineRefs field then inlineRefIdsIn value else []

def extractInlineReferences : List FieldDef → JsonObject → List (String × String) :=
  extract inlineEntryUses

/-- What an id refers to. -/
inductive RefTarget where
  | asset
  | entry
  deriving DecidableEq

/-- An id in the data of an entry. -/
structure IdReference where
  fieldName : String
  target : RefTarget
  id : String
  inline : Bool

def listIdReferences (fields : List FieldDef) (data : JsonObject) : List IdReference :=
  (extractAssetReferences fields data).map
      (fun use => ⟨use.fieldName, .asset, use.assetId, use.kind = .inline⟩) ++
    (extractReferences fields data).map (fun (name, id) => ⟨name, .entry, id, false⟩) ++
    (extractInlineReferences fields data).map fun (name, id) => ⟨name, .entry, id, true⟩

variable {data : JsonObject}

/-- A use of an asset is among the references. -/
theorem mem_listIdReferences_of_use {fields : List FieldDef} {use : AssetUse}
    (h : use ∈ extractAssetReferences fields data) :
    ⟨use.fieldName, .asset, use.assetId, use.kind = .inline⟩ ∈ listIdReferences fields data := by
  refine List.mem_append_left _ (List.mem_append_left _ ?_)
  exact List.mem_map_of_mem h

/-- Conversely, the references to assets are the uses. -/
theorem exists_use_of_mem {fields : List FieldDef} {r : IdReference}
    (h : r ∈ listIdReferences fields data) (hr : r.target = .asset) :
    ∃ use ∈ extractAssetReferences fields data, use.assetId = r.id := by
  rw [listIdReferences, List.mem_append, List.mem_append] at h
  rcases h with (h | h) | h
  · obtain ⟨use, huse, rfl⟩ := List.mem_map.1 h
    exact ⟨use, huse, rfl⟩
  · obtain ⟨⟨name, id⟩, -, rfl⟩ := List.mem_map.1 h
    cases hr
  · obtain ⟨⟨name, id⟩, -, rfl⟩ := List.mem_map.1 h
    cases hr

end Munin
