import Munin.Cms.FieldChecks
import Munin.Common
import Munin.Foundations.JsonPaths
import Munin.TextReplacements
import Mathlib.Algebra.BigOperators.Group.Finset.Basic
import Mathlib.Algebra.Order.BigOperators.Group.Finset

/-!
# Text replacements in a field

The edits of an entry's field work on the texts in its value: the value itself, the items of an
array, the properties of blocks, as deep as the definition goes. One function lists where they are,
another writes the edited texts back.

* **`replaceFieldText`** — the edited value and the number of replaced places.
* **`TextLeaf`** — which texts of a value the definition says are texts.
* **`TextReplaced`** — what the edits should do: edit each of these texts, leave the rest of the
  value as it is, and count each replaced place once.
* **`field_text_replaced_iff`** — they do so exactly if they replace nothing in a text to which two
  fields of a block lead, for the paths to such a text are listed twice. The definition of a field
  is checked for such fields only outside of arrays.
-/

namespace Munin

open Foundations

abbrev TextPath := List PathStep

/-! ### Collecting, reading and writing -/

mutual

/-- The paths to texts in the value of a field that stands at `path`. -/
def visit (path : TextPath) : FieldDef → Json → List TextPath
  | ⟨_, type, _, _, ⟨_, items, blockTypes⟩⟩, value =>
    match type, value with
    | .text, .str _ | .richText, .str _ | .markdown, .str _ => [path]
    | .array, .arr values =>
      match items with
      | none => []
      | some items => values.zipIdx.flatMap fun (item, i) => visit (path ++ [.index i]) items item
    | .blocks, .arr raws =>
      raws.zipIdx.flatMap fun (raw, i) =>
        visitBlock (path ++ [.index i, .key "props"]) blockTypes raw
    | _, _ => []

/-- The paths to texts in a block, if its type is known. -/
def visitBlock (path : TextPath) : List (BlockTypeDef FieldDef) → Json → List TextPath
  | [], _ => []
  | ⟨name, fields⟩ :: types, raw =>
    match asBlock raw with
    | none => []
    | some block =>
      if name = block.type then visitProps path fields block.props else visitBlock path types raw

def visitProps (path : TextPath) : List FieldDef → JsonObject → List TextPath
  | [], _ => []
  | field :: fields, props =>
    (match props.lookup field.name with
      | none => []
      | some value => visit (path ++ [.key field.name]) field value) ++ visitProps path fields props

end

def collectTextPaths (field : FieldDef) (value : Json) : List TextPath := visit [] field value

/-- The text at a path, which is one that was collected. -/
def readTextAt (value : Json) (path : TextPath) : String :=
  match valueAt value path with
  | some (.str s) => s
  | _ => ""

/-- The value with another text at a path, which is one that was collected. -/
def writeTextAt : Json → TextPath → String → Json
  | _, [], text => .str text
  | .arr items, .index i :: rest, text =>
    match items[i]? with
    | none => .arr items
    | some item => .arr (items.set i (writeTextAt item rest text))
  | .obj fields, .key k :: rest, text =>
    match fields.lookup k with
    | none => .obj fields
    | some value => .obj (setField fields k (writeTextAt value rest text))
  | value, _ :: _, _ => value

/-- Why no text is replaced. -/
inductive FieldTextFailure where
  | noText
  | replacement (failure : TextReplacementFailure)

/-- The turns of the loop that writes the edited texts. -/
def writeTexts (value : Json) (texts : List (TextPath × String)) : Json :=
  texts.foldl (fun next text => writeTextAt next text.1 text.2) value

def replaceFieldText (field : FieldDef) (value : Json) (replacements : List (TextReplacement Char)) :
    Except FieldTextFailure (Json × ℕ) :=
  let paths := collectTextPaths field value
  if paths = [] then .error .noText
  else
    match applyTextReplacements (paths.map fun p => (readTextAt value p).toList) replacements with
    | .error failure => .error (.replacement failure)
    | .ok (texts, applied) =>
      .ok (writeTexts value (paths.zip (texts.map String.ofList)), applied)

/-! ### What is text -/

/-- The fields whose value is a text. -/
def FieldType.IsText (type : FieldType) : Prop :=
  type = .text ∨ type = .richText ∨ type = .markdown

/-- A text `s` of a value that the definition of its field says is one. -/
inductive TextLeaf : FieldDef → Json → TextPath → String → Prop
  | text {field : FieldDef} {s : String} (htype : field.type.IsText) : TextLeaf field (.str s) [] s
  | item {field items : FieldDef} {values : List Json} {i : ℕ} {value : Json} {path : TextPath}
      {s : String} (htype : field.type = .array) (hitems : field.options.items = some items)
      (hi : values[i]? = some value) (h : TextLeaf items value path s) :
      TextLeaf field (.arr values) (.index i :: path) s
  | prop {field prop : FieldDef} {raws : List Json} {i : ℕ} {raw value : Json}
      {block : BlockInstance} {blockType : BlockTypeDef FieldDef} {path : TextPath} {s : String}
      (htype : field.type = .blocks) (hi : raws[i]? = some raw) (hblock : asBlock raw = some block)
      (hfind : field.options.blockTypes.find? (·.name = block.type) = some blockType)
      (hprop : prop ∈ blockType.fields) (hvalue : block.props.lookup prop.name = some value)
      (h : TextLeaf prop value path s) :
      TextLeaf field (.arr raws) (.index i :: .key "props" :: .key prop.name :: path) s

/-- Two fields of a block lead to one text. -/
inductive ReachedTwice : FieldDef → Json → TextPath → Prop
  | item {field items : FieldDef} {values : List Json} {i : ℕ} {value : Json} {path : TextPath}
      (htype : field.type = .array) (hitems : field.options.items = some items)
      (hi : values[i]? = some value) (h : ReachedTwice items value path) :
      ReachedTwice field (.arr values) (.index i :: path)
  | prop {field prop : FieldDef} {raws : List Json} {i : ℕ} {raw value : Json}
      {block : BlockInstance} {blockType : BlockTypeDef FieldDef} {path : TextPath}
      (htype : field.type = .blocks) (hi : raws[i]? = some raw) (hblock : asBlock raw = some block)
      (hfind : field.options.blockTypes.find? (·.name = block.type) = some blockType)
      (hprop : prop ∈ blockType.fields) (hvalue : block.props.lookup prop.name = some value)
      (h : ReachedTwice prop value path) :
      ReachedTwice field (.arr raws) (.index i :: .key "props" :: .key prop.name :: path)
  | twins {field prop twin : FieldDef} {raws : List Json} {i : ℕ} {raw value : Json}
      {block : BlockInstance} {blockType : BlockTypeDef FieldDef} {path : TextPath} {s : String}
      (htype : field.type = .blocks) (hi : raws[i]? = some raw) (hblock : asBlock raw = some block)
      (hfind : field.options.blockTypes.find? (·.name = block.type) = some blockType)
      (htwins : [prop, twin].Sublist blockType.fields) (hname : twin.name = prop.name)
      (hvalue : block.props.lookup prop.name = some value) (h : TextLeaf prop value path s)
      (htwin : TextLeaf twin value path s) :
      ReachedTwice field (.arr raws) (.index i :: .key "props" :: .key prop.name :: path)

/-- **What the edits of a field should do**. -/
structure TextReplaced (field : FieldDef) (value : Json) (edits : List (TextReplacement Char))
    (next : Json) (applied : ℕ) : Prop where
  /-- The texts are edited, -/
  texts : ∀ path s, TextLeaf field value path s →
    nodeAt next path = some (.leaf (.str (.ofList (editedText edits s.toList))))
  /-- and nothing else is. -/
  others : ∀ path, (∀ s, ¬ TextLeaf field value path s) → nodeAt next path = nodeAt value path
  /-- The places that are replaced in the texts. -/
  count : ∃ leaves : Finset (TextPath × String),
    (∀ leaf, leaf ∈ leaves ↔ TextLeaf field value leaf.1 leaf.2) ∧
      applied = ∑ leaf ∈ leaves, replacedIn edits leaf.2.toList

/-! ### Values at paths -/

variable {raw value : Json} {field : FieldDef} {path p : TextPath} {s : String}
  {types : List (BlockTypeDef FieldDef)} {edits : List (TextReplacement Char)}

/-- A block's properties stand under `props`. -/
theorem step_props {v : Json} {block : BlockInstance} {k : String}
    (hblock : asBlock raw = some block) (hv : block.props.lookup k = some v) :
    raw.step (.key "props") = some (.obj block.props) := by
  unfold asBlock at hblock
  split at hblock
  · split at hblock
    · split at hblock
      · rename_i hprops
        rw [← Option.some.inj hblock]
        exact hprops
      · rw [← Option.some.inj hblock] at hv
        cases hv
    · cases hblock
  · cases hblock

/-- A text of a value is at its path. -/
theorem TextLeaf.valueAt
    (h : TextLeaf field value path s) : valueAt value path = some (.str s) := by
  induction h with
  | text => rfl
  | item _ _ hi _ ih =>
    rw [Foundations.valueAt, Json.step, hi]
    exact ih
  | prop _ hi hblock _ _ hvalue _ ih =>
    rw [Foundations.valueAt, Json.step, hi, Option.bind_some, Foundations.valueAt,
      step_props hblock hvalue, Option.bind_some, Foundations.valueAt, Json.step, hvalue]
    exact ih

theorem readTextAt_eq (h : TextLeaf field value path s) : readTextAt value path = s := by
  rw [readTextAt, h.valueAt]

/-- **Writing a text changes one node**. -/
theorem nodeAt_writeTextAt (h : valueAt value path = some (.str s)) (text : String) :
    nodeAt (writeTextAt value path text) =
      Function.update (nodeAt value) path (some (.leaf (.str text))) := by
  induction path generalizing value with
  | nil =>
    obtain rfl := Option.some.inj h
    rw [writeTextAt]
    funext q
    cases q with
    | nil => rw [Function.update_self]; rfl
    | cons => rw [Function.update_of_ne (List.cons_ne_nil _ _)]; rfl
  | cons step path ih =>
    obtain ⟨v, hv, hpath⟩ := Option.bind_eq_some_iff.1 h
    cases value with
    | arr items =>
      cases step with
      | index i =>
        have hv' : items[i]? = some v := hv
        obtain ⟨hi, -⟩ := List.getElem?_eq_some_iff.1 hv'
        rw [writeTextAt, hv']
        refine nodeAt_eq_update (congrArg Node.array List.length_set) hv
          (List.getElem?_set_self hi) (fun other hother => ?_) (ih hpath)
        cases other with
        | index j => exact List.getElem?_set_ne fun hij => hother (congrArg _ hij.symm)
        | key => rfl
      | key => cases hv
    | obj fields =>
      cases step with
      | index => cases hv
      | key k =>
        have hv' : fields.lookup k = some v := hv
        rw [writeTextAt, hv']
        refine nodeAt_eq_update (congrArg Node.object (keys_setField hv' _)) hv
          (lookup_setField_self _ _ _) (fun other hother => ?_) (ih hpath)
        cases other with
        | index => rfl
        | key l => exact lookup_setField_of_ne _ _ fun hl => hother (congrArg _ hl)
    | null | bool | num | str => cases hv

/-- Writing texts at some paths, perhaps the same one at a path again, changes their nodes only. -/
theorem nodeAt_writeTexts {paths : List TextPath} (text : TextPath → String)
    (hpaths : ∀ p ∈ paths, ∃ s, valueAt value p = some (.str s)) (path : TextPath) :
    nodeAt (writeTexts value (paths.map fun p => (p, text p))) path =
      if path ∈ paths then some (.leaf (.str (text path))) else nodeAt value path := by
  induction paths generalizing value with
  | nil => rfl
  | cons p paths ih =>
    obtain ⟨s, hs⟩ := hpaths p List.mem_cons_self
    have hnode := nodeAt_writeTextAt hs (text p)
    have hpaths' : ∀ q ∈ paths, ∃ s, valueAt (writeTextAt value p (text p)) q = some (.str s) := by
      intro q hq
      by_cases hqp : q = p
      · exact ⟨text p, valueAt_eq_str_iff.2 (by rw [hnode, hqp, Function.update_self])⟩
      · obtain ⟨s', hs'⟩ := hpaths q (List.mem_cons_of_mem _ hq)
        refine ⟨s', valueAt_eq_str_iff.2 ?_⟩
        rw [hnode, Function.update_of_ne hqp]
        exact valueAt_eq_str_iff.1 hs'
    have hfirst : writeTexts value ((p :: paths).map fun p => (p, text p)) =
        writeTexts (writeTextAt value p (text p)) (paths.map fun p => (p, text p)) := rfl
    rw [hfirst, ih hpaths', hnode]
    by_cases hpath : path = p
    · rw [hpath, Function.update_self, if_pos List.mem_cons_self, ite_self]
    · rw [Function.update_of_ne hpath]
      simp only [List.mem_cons, hpath, false_or]

/-! ### The collected paths -/

/-- A property of all definitions, if a definition has it whenever the ones in it do. -/
theorem FieldDef.induction {P : FieldDef → Prop}
    (h : ∀ field, (∀ items, field.options.items = some items → P items) →
      (∀ blockType ∈ field.options.blockTypes, ∀ prop ∈ blockType.fields, P prop) → P field)
    (field : FieldDef) : P field :=
  h field (fun items _ => FieldDef.induction h items)
    fun blockType _ prop _ => FieldDef.induction h prop
termination_by sizeOf field
decreasing_by
  · rename_i hitems
    obtain ⟨name, type, required, inlineRefs, ⟨choices, inner, blockTypes⟩⟩ := field
    obtain rfl : inner = some items := hitems
    simp only [FieldDef.mk.sizeOf_spec, FieldOptions.mk.sizeOf_spec, Option.some.sizeOf_spec]
    omega
  · rename_i hblockType hprop
    obtain ⟨name, type, required, inlineRefs, ⟨choices, inner, blockTypes⟩⟩ := field
    have hlt := List.sizeOf_lt_of_mem hblockType
    have hlt' := List.sizeOf_lt_of_mem hprop
    obtain ⟨blockName, fields⟩ := blockType
    simp only [FieldDef.mk.sizeOf_spec, FieldOptions.mk.sizeOf_spec, BlockTypeDef.mk.sizeOf_spec]
      at hlt hlt' ⊢
    omega

/-- The paths to texts in the properties of a block, for the fields of its type. -/
theorem visitProps_eq (path : TextPath) (fields : List FieldDef) (props : JsonObject) :
    visitProps path fields props = fields.flatMap fun field =>
      (props.lookup field.name).elim [] (visit (path ++ [.key field.name]) field) := by
  induction fields with
  | nil => rfl
  | cons field fields ih =>
    rw [visitProps, ih, List.flatMap_cons]
    cases props.lookup field.name <;> rfl

theorem visitBlock_eq (path : TextPath) (types : List (BlockTypeDef FieldDef)) (raw : Json) :
    visitBlock path types raw = (asBlock raw).elim [] fun block =>
      (types.find? (·.name = block.type)).elim [] fun blockType =>
        visitProps path blockType.fields block.props := by
  induction types with
  | nil =>
    rw [visitBlock]
    cases asBlock raw <;> rfl
  | cons blockType types ih =>
    rw [visitBlock, ih]
    cases asBlock raw with
    | none => rfl
    | some block =>
      simp only [Option.elim_some]
      by_cases hname : blockType.name = block.type
      · rw [if_pos hname, List.find?_cons_of_pos (by simpa using hname)]
        rfl
      · rw [if_neg hname, List.find?_cons_of_neg (by simpa using hname)]

theorem visit_text (htype : field.type.IsText) (path : TextPath) (s : String) :
    visit path field (.str s) = [path] := by
  obtain ⟨name, type, required, inlineRefs, ⟨choices, inner, blockTypes⟩⟩ := field
  rcases htype with h | h | h <;>
  · dsimp only at h
    subst h
    rfl

theorem visit_array {items : FieldDef} (htype : field.type = .array)
    (hitems : field.options.items = some items) (path : TextPath) (values : List Json) :
    visit path field (.arr values) =
      values.zipIdx.flatMap fun (item, i) => visit (path ++ [.index i]) items item := by
  obtain ⟨name, type, required, inlineRefs, ⟨choices, inner, blockTypes⟩⟩ := field
  dsimp only at htype hitems
  subst htype hitems
  rw [visit]

theorem visit_blocks (htype : field.type = .blocks) (path : TextPath)
    (raws : List Json) : visit path field (.arr raws) = raws.zipIdx.flatMap fun (raw, i) =>
      visitBlock (path ++ [.index i, .key "props"]) field.options.blockTypes raw := by
  obtain ⟨name, type, required, inlineRefs, ⟨choices, inner, blockTypes⟩⟩ := field
  dsimp only at htype
  subst htype
  rw [visit]

/-- Paths are found in texts, in arrays with items and in blocks. -/
theorem visit_ne_nil (h : visit path field value ≠ []) :
    (field.type.IsText ∧ ∃ s, value = .str s) ∨
      (field.type = .array ∧ ∃ items values, field.options.items = some items ∧
        value = .arr values) ∨
      field.type = .blocks ∧ ∃ raws, value = .arr raws := by
  obtain ⟨name, type, required, inlineRefs, ⟨choices, inner, blockTypes⟩⟩ := field
  unfold visit at h
  split at h
  · exact .inl ⟨.inl rfl, _, rfl⟩
  · exact .inl ⟨.inr (.inl rfl), _, rfl⟩
  · exact .inl ⟨.inr (.inr rfl), _, rfl⟩
  · cases inner with
    | none => exact absurd rfl h
    | some items => exact .inr (.inl ⟨rfl, items, _, rfl, rfl⟩)
  · exact .inr (.inr ⟨rfl, _, rfl⟩)
  · exact absurd rfl h

/-- A path in a block belongs to a field of its type. -/
theorem mem_visitBlock :
    p ∈ visitBlock path types raw ↔ ∃ block blockType prop value, asBlock raw = some block ∧
      types.find? (·.name = block.type) = some blockType ∧ prop ∈ blockType.fields ∧
      block.props.lookup prop.name = some value ∧
      p ∈ visit (path ++ [.key prop.name]) prop value := by
  rw [visitBlock_eq]
  cases asBlock raw with
  | none => simp
  | some block =>
    cases hfind : types.find? (·.name = block.type) with
    | none => simp [hfind]
    | some blockType =>
      simp only [Option.elim_some, hfind, visitProps_eq, List.mem_flatMap]
      refine ⟨fun ⟨prop, hprop, hp⟩ => ?_, ?_⟩
      · cases hvalue : block.props.lookup prop.name with
        | none =>
          rw [hvalue] at hp
          exact absurd hp List.not_mem_nil
        | some value =>
          rw [hvalue] at hp
          exact ⟨block, blockType, prop, value, rfl, hfind, hprop, hvalue, hp⟩
      · rintro ⟨other, otherType, prop, value, hblock, hfind', hprop, hvalue, hp⟩
        obtain rfl := Option.some.inj hblock
        obtain rfl := Option.some.inj (hfind.symm.trans hfind')
        exact ⟨prop, hprop, by rw [hvalue]; exact hp⟩

theorem mem_visit_of_textLeaf {rel : TextPath}
    (h : TextLeaf field value rel s) (path : TextPath) : path ++ rel ∈ visit path field value := by
  induction h generalizing path with
  | text htype =>
    rw [visit_text htype, List.append_nil]
    exact List.mem_singleton_self _
  | @item field items values i value rel s htype hitems hi _ ih =>
    rw [visit_array htype hitems, List.mem_flatMap]
    refine ⟨(value, i), List.mem_zipIdx_iff_getElem?.2 hi, ?_⟩
    rw [List.append_cons]
    exact ih _
  | @prop field prop raws i raw value block blockType rel s htype hi hblock hfind hprop hvalue _ ih =>
    rw [visit_blocks htype, List.mem_flatMap]
    refine ⟨(raw, i), List.mem_zipIdx_iff_getElem?.2 hi, mem_visitBlock.2
      ⟨block, blockType, prop, value, hblock, hfind, hprop, hvalue, ?_⟩⟩
    have happend : path ++ .index i :: .key "props" :: .key prop.name :: rel =
        (path ++ [.index i, .key "props"] ++ [.key prop.name]) ++ rel := by
      simp only [List.append_assoc, List.cons_append, List.nil_append]
    rw [happend]
    exact ih _

theorem exists_textLeaf (field : FieldDef) : ∀ {value : Json} {path p : TextPath},
    p ∈ visit path field value → ∃ rel s, p = path ++ rel ∧ TextLeaf field value rel s := by
  induction field using FieldDef.induction with
  | h field ihitems ihprops =>
    intro value path p hp
    rcases visit_ne_nil (List.ne_nil_of_mem hp) with ⟨htype, s, rfl⟩ |
      ⟨htype, items, values, hitems, rfl⟩ | ⟨htype, raws, rfl⟩
    · rw [visit_text htype, List.mem_singleton] at hp
      exact ⟨[], s, by rw [hp, List.append_nil], .text htype⟩
    · rw [visit_array htype hitems, List.mem_flatMap] at hp
      obtain ⟨⟨v, i⟩, hi, hp⟩ := hp
      obtain ⟨rel, s, rfl, hleaf⟩ := ihitems items hitems hp
      exact ⟨.index i :: rel, s, by rw [List.append_assoc, List.singleton_append],
        .item htype hitems (List.mem_zipIdx_iff_getElem?.1 hi) hleaf⟩
    · rw [visit_blocks htype, List.mem_flatMap] at hp
      obtain ⟨⟨raw, i⟩, hi, hp⟩ := hp
      obtain ⟨block, blockType, prop, v, hblock, hfind, hprop, hvalue, hp⟩ := mem_visitBlock.1 hp
      obtain ⟨rel, s, rfl, hleaf⟩ :=
        ihprops blockType (List.mem_of_find?_eq_some hfind) prop hprop hp
      exact ⟨.index i :: .key "props" :: .key prop.name :: rel, s,
        by simp only [List.append_assoc, List.cons_append, List.nil_append],
        .prop htype (List.mem_zipIdx_iff_getElem?.1 hi) hblock hfind hprop hvalue hleaf⟩

/-- **The collected paths are the paths to texts**. -/
theorem mem_collectTextPaths :
    p ∈ collectTextPaths field value ↔ ∃ s, TextLeaf field value p s := by
  refine ⟨fun h => ?_, fun ⟨s, h⟩ => mem_visit_of_textLeaf h []⟩
  obtain ⟨rel, s, rfl, hleaf⟩ := exists_textLeaf field h
  exact ⟨s, hleaf⟩

/-! ### Paths listed twice -/

/-- Something is listed twice if one of the lists has it twice, or two of them have it. -/
theorem two_le_count_flatMap {α β : Type*} [BEq β] [LawfulBEq β] (g : α → List β) (b : β) (l : List α) :
    2 ≤ (l.flatMap g).count b ↔
      (∃ x ∈ l, 2 ≤ (g x).count b) ∨ ∃ x y, [x, y].Sublist l ∧ b ∈ g x ∧ b ∈ g y := by
  induction l with
  | nil => simp
  | cons x l ih =>
    rw [List.flatMap_cons, List.count_append]
    refine ⟨fun h => ?_, ?_⟩
    · by_cases hx : 2 ≤ (g x).count b
      · exact .inl ⟨x, List.mem_cons_self, hx⟩
      · by_cases hl : 2 ≤ (l.flatMap g).count b
        · refine (ih.1 hl).imp (fun ⟨y, hy, h⟩ => ⟨y, List.mem_cons_of_mem _ hy, h⟩) ?_
          exact fun ⟨y, z, hsub, h⟩ => ⟨y, z, hsub.cons x, h⟩
        · have hone : b ∈ g x := List.count_pos_iff.1 (by omega)
          have hother : b ∈ l.flatMap g := List.count_pos_iff.1 (by omega)
          obtain ⟨y, hy, hby⟩ := List.mem_flatMap.1 hother
          exact .inr ⟨x, y, (List.singleton_sublist.2 hy).cons_cons x, hone, hby⟩
    · rintro (⟨y, hy, h⟩ | ⟨y, z, hsub, hby, hbz⟩)
      · rcases List.mem_cons.1 hy with rfl | hy
        · omega
        · have hl := ih.2 (.inl ⟨y, hy, h⟩)
          omega
      · cases hsub with
        | cons _ hsub =>
          have hl := ih.2 (.inr ⟨y, z, hsub, hby, hbz⟩)
          omega
        | cons_cons _ hsub =>
          have hone := List.count_pos_iff.2 hby
          have hother : b ∈ l.flatMap g :=
            List.mem_flatMap.2 ⟨z, List.singleton_sublist.1 hsub, hbz⟩
          have hpos := List.count_pos_iff.2 hother
          omega

/-- Two places of a list have different positions. -/
theorem snd_ne_of_sublist_zipIdx {α : Type*} {l : List α} {x y : α × ℕ}
    (h : [x, y].Sublist l.zipIdx) : x.2 ≠ y.2 := by
  have hnodup : (l.zipIdx.map Prod.snd).Nodup := by
    rw [List.zipIdx_map_snd]
    exact List.nodup_range'
  have hpair := hnodup.sublist (h.map Prod.snd)
  exact fun heq => (List.nodup_cons.1 hpair).1 (List.mem_singleton.2 heq)

theorem prefix_of_mem_visit (h : p ∈ visit path field value) : path <+: p := by
  obtain ⟨rel, s, rfl, -⟩ := exists_textLeaf field h
  exact List.prefix_append _ _

theorem prefix_of_mem_visitBlock (h : p ∈ visitBlock path types raw) : path <+: p := by
  obtain ⟨_, _, prop, _, -, -, -, -, hp⟩ := mem_visitBlock.1 h
  exact (List.prefix_append _ _).trans (prefix_of_mem_visit hp)

/-- A path leads to one place of a list, so it is listed twice there. -/
theorem two_le_count_zipIdx {g : Json × ℕ → List TextPath}
    (hg : ∀ x p, p ∈ g x → path ++ [.index x.2] <+: p) (p : TextPath) (values : List Json) :
    2 ≤ (values.zipIdx.flatMap g).count p ↔
      ∃ value i, values[i]? = some value ∧ 2 ≤ (g (value, i)).count p := by
  rw [two_le_count_flatMap]
  refine ⟨?_, fun ⟨value, i, hi, h⟩ => .inl ⟨_, List.mem_zipIdx_iff_getElem?.2 hi, h⟩⟩
  rintro (⟨⟨value, i⟩, hi, h⟩ | ⟨x, y, hsub, hx, hy⟩)
  · exact ⟨value, i, List.mem_zipIdx_iff_getElem?.1 hi, h⟩
  · obtain ⟨rest, hrest⟩ := hg x p hx
    obtain ⟨rest', hrest'⟩ := hg y p hy
    rw [← hrest, List.append_assoc, List.append_assoc] at hrest'
    have hstep := (List.cons.inj (List.append_cancel_left hrest')).1
    exact absurd (PathStep.index.inj hstep).symm (snd_ne_of_sublist_zipIdx hsub)

/-- A path is listed twice in a block by a field with a path of its own listed twice, or by two
fields. -/
theorem two_le_count_visitBlock : 2 ≤ (visitBlock path types raw).count p ↔
      ∃ block blockType prop value, asBlock raw = some block ∧
        types.find? (·.name = block.type) = some blockType ∧
        block.props.lookup prop.name = some value ∧
        (prop ∈ blockType.fields ∧ 2 ≤ (visit (path ++ [.key prop.name]) prop value).count p ∨
          ∃ twin rel s, [prop, twin].Sublist blockType.fields ∧ twin.name = prop.name ∧
            p = path ++ .key prop.name :: rel ∧ TextLeaf prop value rel s ∧
              TextLeaf twin value rel s) := by
  rw [visitBlock_eq]
  cases asBlock raw with
  | none => simp
  | some block =>
    cases hfind : types.find? (·.name = block.type) with
    | none => simp [hfind]
    | some blockType =>
      simp only [Option.elim_some, hfind, visitProps_eq, two_le_count_flatMap]
      refine ⟨?_, ?_⟩
      · rintro (⟨prop, hprop, hp⟩ | ⟨prop, twin, htwins, hp, hp'⟩)
        · cases hvalue : block.props.lookup prop.name with
          | none => simp [hvalue] at hp
          | some value =>
            rw [hvalue] at hp
            exact ⟨block, blockType, prop, value, rfl, hfind, hvalue, .inl ⟨hprop, hp⟩⟩
        · cases hvalue : block.props.lookup prop.name with
          | none => simp [hvalue] at hp
          | some value =>
            cases hvalue' : block.props.lookup twin.name with
            | none => simp [hvalue'] at hp'
            | some value' =>
              rw [hvalue] at hp
              rw [hvalue'] at hp'
              obtain ⟨rel, s, rfl, hleaf⟩ := exists_textLeaf prop hp
              obtain ⟨rel', s', heq, hleaf'⟩ := exists_textLeaf twin hp'
              rw [List.append_assoc, List.append_assoc] at heq
              obtain ⟨hname, rfl⟩ := List.cons.inj (List.append_cancel_left heq)
              have hname := PathStep.key.inj hname
              rw [← hname, hvalue] at hvalue'
              obtain rfl := Option.some.inj hvalue'
              obtain rfl := Json.str.inj (Option.some.inj (hleaf.valueAt.symm.trans hleaf'.valueAt))
              exact ⟨block, blockType, prop, value, rfl, hfind, hvalue,
                .inr ⟨twin, rel, s, htwins, hname.symm, by simp, hleaf, hleaf'⟩⟩
      · rintro ⟨other, otherType, prop, value, hblock, hfind', hvalue, htwice⟩
        obtain rfl := Option.some.inj hblock
        obtain rfl := Option.some.inj (hfind.symm.trans hfind')
        rcases htwice with ⟨hprop, hp⟩ | ⟨twin, rel, s, htwins, hname, rfl, hleaf, hleaf'⟩
        · exact .inl ⟨prop, hprop, by rw [hvalue]; exact hp⟩
        · have happend : path ++ PathStep.key prop.name :: rel =
              path ++ [.key prop.name] ++ rel := by simp
          refine .inr ⟨prop, twin, htwins, ?_, ?_⟩
          · rw [hvalue, happend]
            exact mem_visit_of_textLeaf hleaf _
          · rw [hname, hvalue, happend]
            exact mem_visit_of_textLeaf hleaf' _

theorem two_le_count_of_reachedTwice {rel : TextPath}
    (h : ReachedTwice field value rel) (path : TextPath) :
    2 ≤ (visit path field value).count (path ++ rel) := by
  have happend (path : TextPath) (i : ℕ) (k : String) (rel : TextPath) :
      path ++ .index i :: .key "props" :: .key k :: rel =
        path ++ [.index i, .key "props"] ++ .key k :: rel := by
    simp only [List.append_assoc, List.cons_append, List.nil_append]
  induction h generalizing path with
  | item htype hitems hi _ ih =>
    rw [visit_array htype hitems,
      two_le_count_zipIdx fun x p hp => prefix_of_mem_visit hp]
    refine ⟨_, _, hi, ?_⟩
    rw [List.append_cons]
    exact ih _
  | prop htype hi hblock hfind hprop hvalue _ ih =>
    rw [visit_blocks htype, two_le_count_zipIdx fun x p hp =>
      ((List.prefix_append_right_inj path).2 (by simp)).trans (prefix_of_mem_visitBlock hp)]
    refine ⟨_, _, hi, two_le_count_visitBlock.2
      ⟨_, _, _, _, hblock, hfind, hvalue, .inl ⟨hprop, ?_⟩⟩⟩
    rw [happend, List.append_cons]
    exact ih _
  | twins htype hi hblock hfind htwins hname hvalue hleaf htwin =>
    rw [visit_blocks htype, two_le_count_zipIdx fun x p hp =>
      ((List.prefix_append_right_inj path).2 (by simp)).trans (prefix_of_mem_visitBlock hp)]
    exact ⟨_, _, hi, two_le_count_visitBlock.2
      ⟨_, _, _, _, hblock, hfind, hvalue, .inr ⟨_, _, _, htwins, hname, happend _ _ _ _, hleaf,
        htwin⟩⟩⟩

theorem exists_reachedTwice (field : FieldDef) : ∀ {value : Json} {path p : TextPath},
    2 ≤ (visit path field value).count p → ∃ rel, p = path ++ rel ∧ ReachedTwice field value rel := by
  induction field using FieldDef.induction with
  | h field ihitems ihprops =>
    intro value path p hp
    have hne : visit path field value ≠ [] :=
      List.ne_nil_of_mem (List.count_pos_iff.1 (Nat.lt_of_lt_of_le Nat.two_pos hp))
    rcases visit_ne_nil hne with ⟨htype, s, rfl⟩ | ⟨htype, items, values, hitems, rfl⟩ |
      ⟨htype, raws, rfl⟩
    · rw [visit_text htype] at hp
      have hle := List.count_le_length (a := p) (l := [path])
      rw [List.length_singleton] at hle
      omega
    · rw [visit_array htype hitems,
        two_le_count_zipIdx fun x p hp => prefix_of_mem_visit hp] at hp
      obtain ⟨v, i, hi, hp⟩ := hp
      obtain ⟨rel, rfl, htwice⟩ := ihitems items hitems hp
      exact ⟨.index i :: rel, by rw [List.append_assoc, List.singleton_append],
        .item htype hitems hi htwice⟩
    · rw [visit_blocks htype, two_le_count_zipIdx fun x p hp =>
        ((List.prefix_append_right_inj path).2 (by simp)).trans (prefix_of_mem_visitBlock hp)] at hp
      obtain ⟨raw, i, hi, hp⟩ := hp
      obtain ⟨block, blockType, prop, v, hblock, hfind, hvalue, htwice⟩ :=
        two_le_count_visitBlock.1 hp
      rcases htwice with ⟨hprop, hp⟩ | ⟨twin, rel, s, htwins, hname, rfl, hleaf, htwin⟩
      · obtain ⟨rel, rfl, htwice⟩ := ihprops blockType (List.mem_of_find?_eq_some hfind) prop hprop hp
        exact ⟨.index i :: .key "props" :: .key prop.name :: rel,
          by simp only [List.append_assoc, List.cons_append, List.nil_append],
          .prop htype hi hblock hfind hprop hvalue htwice⟩
      · exact ⟨.index i :: .key "props" :: .key prop.name :: rel,
          by simp only [List.append_assoc, List.cons_append, List.nil_append],
          .twins htype hi hblock hfind htwins hname hvalue hleaf htwin⟩

/-- **The paths that are listed twice** are those to which two fields of a block lead. -/
theorem two_le_count_collectTextPaths :
    2 ≤ (collectTextPaths field value).count p ↔ ReachedTwice field value p := by
  refine ⟨fun h => ?_, fun h => two_le_count_of_reachedTwice h []⟩
  obtain ⟨rel, rfl, htwice⟩ := exists_reachedTwice field h
  exact htwice

/-! ### The count -/

/-- A sum over a list is the one over its elements if what is in the list twice adds nothing. -/
theorem sum_map_eq_sum_toFinset_iff {α : Type*} [b : BEq α] [LawfulBEq α] [DecidableEq α]
    (l : List α) (f : α → ℕ) :
    (l.map f).sum = ∑ a ∈ l.toFinset, f a ↔ ∀ a, 2 ≤ l.count a → f a = 0 := by
  obtain rfl := lawful_beq_subsingleton b instBEqOfDecidableEq
  have hle : ∀ a ∈ l.toFinset, f a ≤ l.count a • f a := fun a ha =>
    Nat.le_mul_of_pos_left _ (List.count_pos_iff.2 (List.mem_toFinset.1 ha))
  rw [Finset.sum_list_map_count, eq_comm, Finset.sum_eq_sum_iff_of_le hle]
  refine ⟨fun h a ha => ?_, fun h a ha => ?_⟩
  · have hmem : a ∈ l := List.count_pos_iff.1 (Nat.lt_of_lt_of_le Nat.two_pos ha)
    have heq := h a (List.mem_toFinset.2 hmem)
    by_contra hne
    have hlt : 1 * f a < l.count a * f a :=
      Nat.mul_lt_mul_of_pos_right ha (Nat.pos_of_ne_zero hne)
    rw [Nat.one_mul] at hlt
    exact (Nat.ne_of_lt hlt) heq
  · by_cases htwice : 2 ≤ l.count a
    · rw [h a htwice, nsmul_zero]
    · have hpos := List.count_pos_iff.2 (List.mem_toFinset.1 ha)
      have hone : l.count a = 1 := by omega
      rw [hone, one_nsmul]

/-- The texts of a value with their paths, as they are collected. -/
def collectedTexts (field : FieldDef) (value : Json) : List (TextPath × String) :=
  (collectTextPaths field value).map fun p => (p, readTextAt value p)

theorem mem_collectedTexts {leaf : TextPath × String} :
    leaf ∈ collectedTexts field value ↔ TextLeaf field value leaf.1 leaf.2 := by
  rw [collectedTexts, List.mem_map]
  refine ⟨?_, fun h => ⟨leaf.1, mem_collectTextPaths.2 ⟨_, h⟩, Prod.ext rfl (readTextAt_eq h)⟩⟩
  rintro ⟨p, hp, rfl⟩
  obtain ⟨s, hleaf⟩ := mem_collectTextPaths.1 hp
  rw [readTextAt_eq hleaf]
  exact hleaf

theorem count_collectedTexts (h : TextLeaf field value path s) :
    (collectedTexts field value).count (path, s) = (collectTextPaths field value).count path := by
  have hinj : Function.Injective fun p : TextPath => (p, readTextAt value p) :=
    fun p q hpq => (Prod.mk.inj hpq).1
  rw [collectedTexts, ← List.count_map_of_injective _ _ hinj, readTextAt_eq h]

/-- What the edits of a field do when they are accepted. -/
theorem replaceFieldText_eq_ok {next : Json} {applied : ℕ}
    (h : replaceFieldText field value edits = .ok (next, applied)) :
    next = writeTexts value ((collectTextPaths field value).map fun p =>
        (p, String.ofList (editedText edits (readTextAt value p).toList))) ∧
      applied = ((collectedTexts field value).map fun leaf =>
        replacedIn edits leaf.2.toList).sum := by
  unfold replaceFieldText at h
  dsimp only at h
  split_ifs at h
  split at h
  · cases h
  · rename_i texts applied' hok
    obtain ⟨rfl, rfl⟩ := Prod.mk.inj (Except.ok.inj h)
    obtain ⟨rfl, rfl⟩ := Prod.mk.inj (applyEdits_eq_ok hok)
    rw [List.map_map, List.map_map, ← List.map_prod_left_eq_zip, Nat.zero_add, List.map_map,
      collectedTexts, List.map_map]
    exact ⟨rfl, rfl⟩

/-- **Accepted edits touch only text**; what they count is another matter. -/
theorem textReplaced_iff_count {next : Json} {applied : ℕ}
    (h : replaceFieldText field value edits = .ok (next, applied)) :
    TextReplaced field value edits next applied ↔
      applied = ∑ leaf ∈ (collectedTexts field value).toFinset, replacedIn edits leaf.2.toList := by
  have hpaths : ∀ p ∈ collectTextPaths field value, ∃ s, valueAt value p = some (.str s) := by
    intro p hp
    obtain ⟨s, hleaf⟩ := mem_collectTextPaths.1 hp
    exact ⟨s, hleaf.valueAt⟩
  have hnode := nodeAt_writeTexts
    (fun p => String.ofList (editedText edits (readTextAt value p).toList)) hpaths
  rw [← (replaceFieldText_eq_ok h).1] at hnode
  refine ⟨fun ⟨_, _, leaves, hleaves, hsum⟩ => ?_, fun hsum => ⟨?_, ?_, _, ?_, hsum⟩⟩
  · have heq : leaves = (collectedTexts field value).toFinset := by
      ext leaf
      rw [hleaves, List.mem_toFinset, mem_collectedTexts]
    rw [hsum, heq]
  · intro path s hleaf
    rw [hnode, if_pos (mem_collectTextPaths.2 ⟨s, hleaf⟩), readTextAt_eq hleaf]
  · intro path hnone
    rw [hnode, if_neg fun hmem => (mem_collectTextPaths.1 hmem).elim hnone]
  · intro leaf
    rw [List.mem_toFinset, mem_collectedTexts]

/-- **Field text replacement touches only text, and counts what it replaces**, exactly if nothing
is replaced in a text to which two fields of a block lead. -/
theorem field_text_replaced_iff {field : FieldDef} {value next : Json}
    {edits : List (TextReplacement Char)} {applied : ℕ}
    (h : replaceFieldText field value edits = .ok (next, applied)) :
    TextReplaced field value edits next applied ↔
      ∀ path s, ReachedTwice field value path → TextLeaf field value path s →
        replacedIn edits s.toList = 0 := by
  rw [textReplaced_iff_count h, (replaceFieldText_eq_ok h).2, sum_map_eq_sum_toFinset_iff]
  refine ⟨fun hzero path s htwice hleaf => ?_, fun hzero leaf htwice => ?_⟩
  · refine hzero (path, s) ?_
    rw [count_collectedTexts hleaf]
    exact two_le_count_collectTextPaths.2 htwice
  · have hleaf := mem_collectedTexts.1
      (List.count_pos_iff.1 (Nat.lt_of_lt_of_le Nat.two_pos htwice))
    have htimes := count_collectedTexts hleaf
    rw [htimes] at htwice
    exact hzero leaf.1 leaf.2 (two_le_count_collectTextPaths.1 htwice) hleaf

/-- Rows of blocks with some text properties. -/
def rowsField (names : List String) : FieldDef :=
  { name := "rows", type := .array, options :=
    { items := some { name := "row", type := .blocks, options :=
      { blockTypes := [⟨"card", names.map fun name => { name := name, type := .text }⟩] } } } }

/-- One row with one block. -/
def rowsValue (title : String) : Json :=
  .arr [.arr [.obj [("type", .str "card"), ("props", .obj [("title", .str title)])]]]

def sampleEdit : TextReplacement Char := ⟨"old".toList, "new".toList, some true⟩

/-- A block with one field for its title. -/
theorem field_text_replaced_iff_sample :
    TextReplaced (rowsField ["title"]) (rowsValue "old") [sampleEdit] (rowsValue "new") 1 ↔
      ∀ path s, ReachedTwice (rowsField ["title"]) (rowsValue "old") path →
        TextLeaf (rowsField ["title"]) (rowsValue "old") path s →
          replacedIn [sampleEdit] s.toList = 0 := by
  have h : replaceFieldText (rowsField ["title"]) (rowsValue "old") [sampleEdit] =
      .ok (rowsValue "new", 1) := by
    rfl
  exact field_text_replaced_iff h

/-- The type of a block in an array may list a field twice, and one replaced place counts as two. -/
theorem twin_fields_count_twice :
    validateFieldsShape true [] [rowsField ["title", "title"]] = none ∧
      replaceFieldText (rowsField ["title", "title"]) (rowsValue "old") [sampleEdit] =
        .ok (rowsValue "new", 2) ∧
      ¬ TextReplaced (rowsField ["title", "title"]) (rowsValue "old") [sampleEdit]
        (rowsValue "new") 2 := by
  have h : replaceFieldText (rowsField ["title", "title"]) (rowsValue "old") [sampleEdit] =
      .ok (rowsValue "new", 2) := by
    rfl
  refine ⟨by decide +kernel, h, fun hreplaced => ?_⟩
  have hsum := (textReplaced_iff_count h).1 hreplaced
  exact absurd hsum (by decide +kernel)

end Munin
