import Munin.Cms.Fields

/-!
# What the CMS checks of fields and data

A collection is saved with fields that `validateFieldsShape` accepts, and an entry with data in
which `validateEntryData` finds no errors. Both give texts; `Date.parse` is a parameter.
-/

namespace Munin

open Foundations

/-! ### The shape of fields -/

/-- The field types as the code spells them. -/
def FieldType.spelled : FieldType → String
  | .text => "text"
  | .richText => "rich_text"
  | .markdown => "markdown"
  | .number => "number"
  | .integer => "integer"
  | .boolean => "boolean"
  | .date => "date"
  | .datetime => "datetime"
  | .select => "select"
  | .multiSelect => "multi_select"
  | .asset => "asset"
  | .reference => "reference"
  | .array => "array"
  | .blocks => "blocks"
  | .json => "json"

/-- `/^[a-z][a-z0-9_]{0,63}$/`. -/
def isFieldName (name : String) : Bool :=
  match name.toList with
  | [] => false
  | c :: cs => c.isLower && cs.all (fun d => d.isLower || d.isDigit || d == '_') && cs.length ≤ 63

/-- `/^[a-z0-9][a-z0-9-]{0,63}$/`. -/
def isValidSlug (slug : String) : Bool :=
  match slug.toList with
  | [] => false
  | c :: cs =>
    (c.isLower || c.isDigit) && cs.all (fun d => d.isLower || d.isDigit || d == '-') &&
      cs.length ≤ 63

mutual

/-- The error that `validateFieldsShape` throws, after the fields with the names `seen`. -/
def validateFieldsShape (allowBlocks : Bool) (seen : List String) :
    List FieldDef → Option String
  | [] => none
  | field :: fields =>
    (validateFieldShape allowBlocks seen field).orElse fun _ =>
      validateFieldsShape allowBlocks (field.name :: seen) fields

/-- What is wrong with a field definition, in a list whose earlier names are `seen`. -/
def validateFieldShape (allowBlocks : Bool) (seen : List String) : FieldDef → Option String
  | field@⟨name, type, _, inlineRefs, ⟨choices, items, blockTypes⟩⟩ =>
    if !isFieldName name then
      some ("field name " ++ (Json.str name).stringify ++
        " must be lowercase letters, digits, underscores")
    else if seen.contains name then some ("duplicate field: " ++ name)
    else if type = .array ∧ items.isNone then
      some ("array field " ++ name ++ ": options.items is required")
    else if inlineRefs ∧ !canCarryInlineRefs field then
      some ("field " ++ name ++
        ": inlineRefs is only supported on text, rich_text, markdown, or an array of those")
    else if (type = .select ∨ type = .multiSelect) ∧ choices = [] then
      some (type.spelled ++ " field " ++ name ++ ": options.choices is required")
    else if type = .blocks then
      if !allowBlocks then
        some ("blocks field " ++ name ++ ": blocks cannot be nested inside a block type")
      else if blockTypes.isEmpty then
        some ("blocks field " ++ name ++ ": options.blockTypes is required")
      else validateBlockTypes name [] blockTypes
    else none

/-- The same of the block types of a field. -/
def validateBlockTypes (name : String) (seen : List String) :
    List (BlockTypeDef FieldDef) → Option String
  | [] => none
  | ⟨type, fields⟩ :: types =>
    if !isFieldName type then
      some ("blocks field " ++ name ++ ": block type name " ++ (Json.str type).stringify ++
        " must be lowercase letters, digits, underscores")
    else if seen.contains type then
      some ("blocks field " ++ name ++ ": duplicate block type: " ++ type)
    else if fields.isEmpty then
      some ("blocks field " ++ name ++ ": block type " ++ type ++
        " must define at least one field")
    else
      (validateFieldsShape false [] fields).orElse fun _ =>
        validateBlockTypes name (type :: seen) types

end

/-! ### The data of an entry -/

mutual

/-- Whether a mark occurs in any text of a value. -/
def containsUri (uri : Marks Char) : Json → Bool
  | .str s => !(uriIds uri s).isEmpty
  | .arr items => containsUriItems uri items
  | .obj fields => containsUriFields uri fields
  | _ => false

/-- Some item has the mark. -/
def containsUriItems (uri : Marks Char) : List Json → Bool
  | [] => false
  | item :: items => containsUri uri item || containsUriItems uri items

/-- Some value of the object has it. -/
def containsUriFields (uri : Marks Char) : List (String × Json) → Bool
  | [] => false
  | (_, value) :: fields => containsUri uri value || containsUriFields uri fields

end

/-- A link to an entry occurs in the value. -/
def containsRefUri : Json → Bool := containsUri refUri

/-- A link to an asset occurs in it. -/
def jsonContainsAssetUri : Json → Bool := containsUri assetUri

/-- Some item has a text under `type` and properties. -/
def jsonLooksLikeBlocks : Json → Bool
  | .arr items => items.any fun
    | .obj fields =>
      (match fields.lookup "type" with
        | some (.str _) => true
        | _ => false) &&
      (match fields.lookup "props" with
        | some (.obj _) | some (.arr _) => true
        | _ => false)
    | _ => false
  | _ => false

/-- What is wrong with links in a field that resolves none. -/
def strayRefUriError (field : FieldDef) (value : Json) : Option String :=
  if field.type = .blocks ∨ carriesInlineRefs field ∨ !containsRefUri value then none
  else if canCarryInlineRefs field then
    some ("contains a ref:// token but the field does not opt in — set inlineRefs: true on the " ++
      "field, or make it markdown/rich_text")
  else
    some ("contains a ref:// token, which is only resolved in markdown, rich_text, or " ++
      "inlineRefs fields")

/-- An error names its field. -/
structure ValidationError where
  field : String
  message : String

/-- Nothing, or an empty text or list. -/
def isFieldEmpty : Option Json → Bool
  | none | some .null | some (.str "") | some (.arr []) => true
  | _ => false

/-- `/^\d{4}-\d{2}-\d{2}$/`. -/
def isIsoDate (s : String) : Bool :=
  match s.toList with
  | [a, b, c, d, '-', e, f, '-', g, h] => [a, b, c, d, e, f, g, h].all (·.isDigit)
  | _ => false

/-- `Number.isInteger`: JavaScript prints a number with a point only below `1e21`, and with a
negative exponent only below `1`. -/
def isInteger (n : NumberText) : Bool :=
  if n.chars.contains 'e' then n.chars.contains '+' else !n.chars.contains '.'

/-- The first error among the elements of a list, with its index. -/
def firstError (check : Json → Option String) : ℕ → List Json → Option String
  | _, [] => none
  | i, value :: values =>
    match check value with
    | some error => some ("[" ++ toString i ++ "]" ++ error)
    | none => firstError check (i + 1) values

/-- The names of the choices of a field. -/
def choiceText (choices : List String) : String := ", ".intercalate choices

mutual

/-- The errors of an entry's data; `parses` is whether `Date.parse` takes a text. -/
def validateEntryData (parses : String → Bool) :
    List FieldDef → JsonObject → List ValidationError
  | [], _ => []
  | field :: fields, data =>
    (match data.lookup field.name with
      | none => if field.required then [⟨field.name, "required"⟩] else []
      | some value =>
        if isFieldEmpty (some value) then
          if field.required then [⟨field.name, "required"⟩] else []
        else
          match strayRefUriError field value with
          | some error => [⟨field.name, error⟩]
          | none =>
            match validateValue parses field value with
            | some error => [⟨field.name, error⟩]
            | none => []) ++ validateEntryData parses fields data

/-- What is wrong with the value of a field. -/
def validateValue (parses : String → Bool) : FieldDef → Json → Option String
  | ⟨_, type, _, _, ⟨choices, items, blockTypes⟩⟩, value =>
    match type, value with
    | .text, .str _ | .richText, .str _ | .markdown, .str _ => none
    | .text, _ | .richText, _ | .markdown, _ => some "expected string"
    | .number, .num _ => none
    | .number, _ => some "expected number"
    | .integer, .num n => if isInteger n then none else some "expected integer"
    | .integer, _ => some "expected integer"
    | .boolean, .bool _ => none
    | .boolean, _ => some "expected boolean"
    | .date, .str s => if isIsoDate s then none else some "expected ISO date (YYYY-MM-DD)"
    | .date, _ => some "expected ISO date (YYYY-MM-DD)"
    | .datetime, .str s => if parses s then none else some "expected ISO 8601 datetime"
    | .datetime, _ => some "expected ISO 8601 datetime"
    | .select, .str s =>
      if choices.contains s then none else some ("not in choices: " ++ choiceText choices)
    | .select, _ => some "expected string"
    | .multiSelect, .arr values =>
      if values.all fun
        | .str s => choices.contains s
        | _ => false
      then none else some ("each value must be one of: " ++ choiceText choices)
    | .multiSelect, _ => some "expected array"
    | .asset, .str _ => none
    | .asset, _ => some "expected asset id (string)"
    | .reference, .str _ => none
    | .reference, _ => some "expected reference id (string)"
    | .array, .arr values =>
      match items with
      | none => none
      | some inner =>
        firstError (fun v => (validateValue parses inner v).map (": " ++ ·)) 0 values
    | .array, _ => some "expected array"
    | .blocks, .arr raws =>
      firstError (fun raw =>
        match raw with
        | .obj block =>
          match block.lookup "type" with
          | some (.str type) => validateBlock parses blockTypes type block
          | _ => some ": block is missing a string \"type\""
        | _ => some ": expected a block object") 0 raws
    | .blocks, _ => some "expected array of blocks"
    | .json, value =>
      if jsonContainsAssetUri value then
        some ("json must not contain asset:// references — use a markdown, rich_text, or blocks " ++
          "field")
      else if jsonLooksLikeBlocks value then
        some "json must not contain block-shaped data (\x7btype, props\x7d) — use a blocks field"
      else none

/-- A block is checked against the first type of its name. -/
def validateBlock (parses : String → Bool) :
    List (BlockTypeDef FieldDef) → String → JsonObject → Option String
  | [], type, _ => some (": unknown block type \"" ++ type ++ "\"")
  | ⟨name, fields⟩ :: types, type, block =>
    if name = type then
      match block.lookup "props" with
      | some (.obj props) =>
        match validateEntryData parses fields props with
        | [] => none
        | errors =>
          some (" (" ++ type ++ "): " ++
            "; ".intercalate (errors.map fun e => e.field ++ ": " ++ e.message))
      | _ => some (" (" ++ type ++ "): block \"props\" must be an object")
    else validateBlock parses types type block

end

end Munin
