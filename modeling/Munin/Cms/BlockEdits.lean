import Munin.Cms.Fields
import Munin.Foundations.JsString
import Munin.Foundations.KeyedList

/-!
# Edits of blocks

The value of a blocks field is a list, and edits go through it one after the other: each takes the
block of a key out, or puts one in, before or after the block of another key, at the start or at the
end. The list is edited in place by `splice`, with indices that are looked up by key.

* **`applyBlockEdit`**, **`applyBlockEdits`** — one edit, and all of them, as the source does them.
* **`Edited`** — what an edit may do to blocks with unique keys: the block of its key is taken out,
  and for a set or a move one with that key put in, where the edit says; `edited_of_apply` is that it
  does so.
* **`block_edits_exact`** — what all of them do together, and which one a failure is of.
* **`placement_undone`** — a later edit may part what the last placement brought together.
-/

namespace Munin

open Foundations

/-! ### Blocks and edits -/

/-- `keyOf`. -/
def keyOf (raw : Json) : Option String :=
  match raw with
  | .obj block =>
    match asBlock raw, block.lookup "key" with
    | some _, some (.str key) => some key
    | _, _ => none
  | _ => none

/-- The content of a block that an edit sets. -/
structure BlockContent where
  type : String
  props : JsonObject

/-- The block of a content, under a key. -/
def BlockContent.toBlock (content : BlockContent) (key : String) : Json :=
  .obj [("type", .str content.type), ("key", .str key), ("props", .obj content.props)]

@[simp]
theorem keyOf_toBlock (content : BlockContent) (key : String) :
    keyOf (content.toBlock key) = some key := rfl

/-- The operations of edits. -/
inductive BlockOp where
  | set
  | delete
  | move
  deriving DecidableEq

def BlockOp.text : BlockOp → String
  | .set => "set"
  | .delete => "delete"
  | .move => "move"

/-- `'start' | 'end'`. -/
inductive BlockPosition where
  | start
  | last

/-- `BlockEdit`. -/
structure BlockEdit where
  op : BlockOp
  key : Option String := none
  block : Option BlockContent := none
  before : Option String := none
  after : Option String := none
  position : Option BlockPosition := none

/-- `BlockEditCode`. -/
inductive BlockEditCode where
  | notFound
  | ambiguous
  | invalid

/-- `BlockEditFailure`. -/
structure BlockEditFailure where
  index : ℕ
  code : BlockEditCode
  message : String

/-- `invalid`. -/
def invalidEdit (index : ℕ) (message : String) : BlockEditFailure :=
  ⟨index, .invalid, message⟩

/-- The failure where several blocks have the key. -/
def ambiguousKey (index found : ℕ) (key : String) : BlockEditFailure :=
  ⟨index, .ambiguous, toString found ++ " blocks share the key \"" ++ key ++
    "\" — keys must be unique within a blocks field"⟩

/-- `items.splice(at, count, ...added)`: the items after it. -/
def splice {α : Type*} (at' count : ℕ) (added items : List α) : List α :=
  items.take at' ++ added ++ items.drop (at' + count)

/-- `locateKey`. -/
def locateKey (blocks : List Json) (key : String) : List ℕ :=
  blocks.findIdxs (fun raw => keyOf raw = some key)

/-- `resolveOne`. -/
def resolveOne (blocks : List Json) (key : String) (index : ℕ) (role : String) :
    Except BlockEditFailure ℕ :=
  match locateKey blocks key with
  | [] => .error ⟨index, .notFound, "no block with key \"" ++ key ++ "\" to " ++ role⟩
  | [at'] => .ok at'
  | found => .error (ambiguousKey index found.length key)

/-- The number of `before`, `after` and `position` that are given. -/
def BlockEdit.anchors (edit : BlockEdit) : ℕ :=
  edit.before.toList.length + edit.after.toList.length + edit.position.toList.length

/-- `placementIndex`. -/
def placementIndex (blocks : List Json) (edit : BlockEdit) (index fallback : ℕ) :
    Except BlockEditFailure ℕ :=
  match edit.position with
  | some .start => .ok 0
  | some .last => .ok blocks.length
  | none =>
    match edit.before.or edit.after with
    | none => .ok fallback
    | some anchor =>
      let role := "place a block " ++ if truthy edit.before then "before" else "after"
      (resolveOne blocks anchor index role).map fun at' =>
        if edit.before.isNone then at' + 1 else at'

/-- One edit: an iteration of the loop in `applyBlockEdits`. -/
def applyBlockEdit (newKey : String) (index : ℕ) (edit : BlockEdit) (blocks : List Json) :
    Except BlockEditFailure (List Json) :=
  if 1 < edit.anchors then
    .error (invalidEdit index "pass at most one of before, after and position")
  else match edit.op with
    | .set =>
      match edit.block with
      | none => .error (invalidEdit index "op \"set\" requires block")
      | some content =>
        let existing := edit.key.elim [] (locateKey blocks)
        if 1 < existing.length then
          .error (ambiguousKey index existing.length (edit.key.getD "undefined"))
        else
          let next := content.toBlock (edit.key.getD newKey)
          let fallback := existing.headD blocks.length
          let rest := if existing.length = 1 then splice fallback 1 [] blocks else blocks
          (placementIndex rest edit index fallback).map fun target => splice target 0 [next] rest
    | op =>
      match edit.key with
      | none => .error (invalidEdit index ("op \"" ++ op.text ++ "\" requires key"))
      | some key =>
        (resolveOne blocks key index op.text).bind fun located =>
          let moved := (blocks.drop located).take 1
          let rest := splice located 1 [] blocks
          if op = .delete then .ok rest
          else if edit.anchors = 0 then
            .error (invalidEdit index "op \"move\" requires one of before, after or position")
          else
            (placementIndex rest edit index rest.length).map fun target =>
              splice target 0 moved rest

/-- Whether an edit that succeeds takes a new key. -/
def BlockEdit.takesKey (edit : BlockEdit) : Bool :=
  edit.op = .set && edit.key.isNone

/-- The loop over the edits, from the index of the first of them; `calls` counts those of `newKey`
before. -/
def editBlocks (newKey : ℕ → String) : (index calls : ℕ) → List BlockEdit → List Json →
    Except BlockEditFailure (List Json)
  | _, _, [], blocks => .ok blocks
  | index, calls, edit :: edits, blocks =>
    (applyBlockEdit (newKey calls) index edit blocks).bind
      (editBlocks newKey (index + 1) (calls + edit.takesKey.toNat) edits)

/-- The blocks of a value: none of a value that is missing. -/
def blocksOf : Option Json → Option (List Json)
  | none | some .null => some []
  | some (.arr items) => some items
  | some _ => none

/-- `applyBlockEdits`. -/
def applyBlockEdits (newKey : ℕ → String) (value : Option Json) (edits : List BlockEdit) :
    Except BlockEditFailure (List Json) :=
  match blocksOf value with
  | some blocks => editBlocks newKey 0 0 edits blocks
  | none => .error (invalidEdit 0 "the field does not hold a list of blocks")

/-- What a mapped result was before. -/
theorem map_eq_ok_iff {ε α β : Type*} {f : α → β} {x : Except ε α} {b : β} :
    x.map f = .ok b ↔ ∃ a, x = .ok a ∧ f a = b := by
  cases x <;> simp [Except.map]

theorem bind_eq_ok_iff {ε α β : Type*} {f : α → Except ε β} {x : Except ε α} {b : β} :
    x.bind f = .ok b ↔ ∃ a, x = .ok a ∧ f a = .ok b := by
  cases x <;> simp [Except.bind]

theorem map_eq_error_iff {ε α β : Type*} {f : α → β} {x : Except ε α} {e : ε} :
    x.map f = .error e ↔ x = .error e := by
  cases x <;> simp [Except.map]

theorem bind_eq_error_iff {ε α β : Type*} {f : α → Except ε β} {x : Except ε α} {e : ε} :
    x.bind f = .error e ↔ x = .error e ∨ ∃ a, x = .ok a ∧ f a = .error e := by
  cases x <;> simp [Except.bind]

/-! ### Looking up keys -/

section Lookup

variable {blocks l₁ l₂ : List Json} {b : Json} {k : String}

theorem locateKey_of_notMem (h : k ∉ blocks.filterMap keyOf) : locateKey blocks k = [] := by
  refine List.findIdxs_eq_nil_iff.2 fun raw hraw => ?_
  exact decide_eq_false fun hkey => h (List.mem_filterMap.2 ⟨raw, hraw, hkey⟩)

theorem locateKey_split (hb : keyOf b = some k) (h₁ : k ∉ l₁.filterMap keyOf)
    (h₂ : k ∉ l₂.filterMap keyOf) : locateKey (l₁ ++ b :: l₂) k = [l₁.length] := by
  have hnone {l : List Json} (h : k ∉ l.filterMap keyOf) (s : ℕ) :
      l.findIdxs (fun raw => keyOf raw = some k) s = [] :=
    List.findIdxs_eq_nil_iff.2 fun raw hraw =>
      decide_eq_false fun hkey => h (List.mem_filterMap.2 ⟨raw, hraw, hkey⟩)
  rw [locateKey, List.findIdxs_append, hnone h₁, List.findIdxs_cons, hnone h₂]
  simp [hb]

/-- **Looking a key up finds its block**, and nothing else can be found. -/
theorem resolveOne_ok (hunique : UniqueKeys keyOf blocks) {index t : ℕ} {role : String}
    (h : resolveOne blocks k index role = .ok t) :
    ∃ l₁ b l₂, blocks = l₁ ++ b :: l₂ ∧ t = l₁.length ∧ keyOf b = some k ∧
      k ∉ l₁.filterMap keyOf ∧ k ∉ l₂.filterMap keyOf := by
  by_cases hk : k ∈ blocks.filterMap keyOf
  · obtain ⟨l₁, b, l₂, rfl, hb, h₁, h₂⟩ := hunique.split hk
    rw [resolveOne, locateKey_split hb h₁ h₂] at h
    cases h
    exact ⟨l₁, b, l₂, rfl, rfl, hb, h₁, h₂⟩
  · rw [resolveOne, locateKey_of_notMem hk] at h
    cases h

theorem splice_out : splice l₁.length 1 [] (l₁ ++ b :: l₂) = l₁ ++ l₂ := by
  simp [splice]

theorem splice_in (w : Json) : splice l₁.length 0 [w] (l₁ ++ l₂) = l₁ ++ w :: l₂ := by
  simp [splice]

theorem take_drop_split : ((l₁ ++ b :: l₂).drop l₁.length).take 1 = [b] := by
  simp

end Lookup

/-! ### What an edit does -/

/-- Where a block was put: what is before it, and what after. -/
structure Placed (edit : BlockEdit) (l₁ l₂ : List Json) : Prop where
  start : edit.position = some .start → l₁ = []
  last : edit.position = some .last → l₂ = []
  before : ∀ k, edit.before = some k → ∃ a rest, l₂ = a :: rest ∧ keyOf a = some k
  after : ∀ k, edit.after = some k → ∃ rest a, l₁ = rest ++ [a] ∧ keyOf a = some k

/-- At most one of the three says where. -/
theorem anchors_cases {edit : BlockEdit} (h : ¬ 1 < edit.anchors) :
    (edit.before = none ∧ edit.after = none ∧ edit.position = none) ∨
      (∃ k, edit.before = some k ∧ edit.after = none ∧ edit.position = none) ∨
      (∃ k, edit.before = none ∧ edit.after = some k ∧ edit.position = none) ∨
      ∃ p, edit.before = none ∧ edit.after = none ∧ edit.position = some p := by
  unfold BlockEdit.anchors at h
  cases hb : edit.before <;> cases ha : edit.after <;> cases hp : edit.position <;>
    simp_all

/-- **Where a block is to be put**. -/
theorem placed_of_placementIndex {rest : List Json} {edit : BlockEdit} {index fallback t : ℕ}
    (hone : ¬ 1 < edit.anchors) (hunique : UniqueKeys keyOf rest) (hfallback : fallback ≤ rest.length)
    (h : placementIndex rest edit index fallback = .ok t) :
    ∃ l₁ l₂, rest = l₁ ++ l₂ ∧ t = l₁.length ∧ Placed edit l₁ l₂ ∧
      (edit.anchors = 0 → t = fallback) := by
  rcases anchors_cases hone with ⟨hb, ha, hp⟩ | ⟨k, hb, ha, hp⟩ | ⟨k, hb, ha, hp⟩ | ⟨p, hb, ha, hp⟩
  · simp only [placementIndex, hp, hb, ha, Option.or_none] at h
    cases h
    refine ⟨rest.take fallback, rest.drop fallback, (List.take_append_drop _ _).symm, ?_, ?_,
      fun _ => rfl⟩
    · rw [List.length_take, Nat.min_eq_left hfallback]
    · constructor <;> simp [hb, ha, hp]
  · -- the anchor starts what is after
    simp only [placementIndex, hp, hb, Option.some_or, Option.isNone_some] at h
    obtain ⟨at', hres, hat⟩ := map_eq_ok_iff.1 h
    obtain rfl : at' = t := hat
    obtain ⟨l₁, a, l₂, rfl, rfl, hkey, -⟩ := resolveOne_ok hunique hres
    refine ⟨l₁, a :: l₂, rfl, rfl, ?_, fun hnone => ?_⟩
    · constructor <;> simp [hb, ha, hp, hkey]
    · simp [BlockEdit.anchors, hb] at hnone
  · -- the anchor ends what is before
    simp only [placementIndex, hp, hb, ha, Option.none_or, Option.isNone_none, if_true] at h
    obtain ⟨at', hres, rfl⟩ := map_eq_ok_iff.1 h
    obtain ⟨l₁, a, l₂, rfl, rfl, hkey, -⟩ := resolveOne_ok hunique hres
    refine ⟨l₁ ++ [a], l₂, by simp, by simp, ?_, fun hnone => ?_⟩
    · constructor
      · simp [hp]
      · simp [hp]
      · simp [hb]
      · intro k' hk'
        obtain rfl : k = k' := Option.some.inj (ha.symm.trans hk')
        exact ⟨l₁, a, rfl, hkey⟩
    · simp [BlockEdit.anchors, ha] at hnone
  · cases p with
    | start =>
      simp only [placementIndex, hp] at h
      cases h
      refine ⟨[], rest, rfl, rfl, ?_, fun hnone => ?_⟩
      · constructor <;> simp [hb, ha, hp]
      · simp [BlockEdit.anchors, hp] at hnone
    | last =>
      simp only [placementIndex, hp] at h
      cases h
      refine ⟨rest, [], (List.append_nil _).symm, rfl, ?_, fun hnone => ?_⟩
      · constructor <;> simp [hb, ha, hp]
      · simp [BlockEdit.anchors, hp] at hnone

/-- **What an edit may do** to blocks with unique keys, where `newKey` is its key if it has none. -/
inductive Edited (newKey : String) (edit : BlockEdit) (blocks : List Json) : List Json → Prop
  | delete {k : String} (hop : edit.op = .delete) (hkey : edit.key = some k) :
    Edited newKey edit blocks (without keyOf k blocks)
  | move {k : String} {b : Json} {l₁ l₂ : List Json} (hop : edit.op = .move)
    (hkey : edit.key = some k) (hb : b ∈ blocks) (hbk : keyOf b = some k)
    (hrest : without keyOf k blocks = l₁ ++ l₂) (hanchors : edit.anchors ≠ 0)
    (hplaced : Placed edit l₁ l₂) : Edited newKey edit blocks (l₁ ++ b :: l₂)
  | set {content : BlockContent} {l₁ l₂ : List Json} (hop : edit.op = .set)
    (hblock : edit.block = some content)
    (hrest : without keyOf (edit.key.getD newKey) blocks = l₁ ++ l₂) (hplaced : Placed edit l₁ l₂)
    (hstay : edit.anchors = 0 → edit.key.getD newKey ∉ blocks.filterMap keyOf ∧ l₂ = [] ∨
      ∃ b, blocks = l₁ ++ b :: l₂ ∧ keyOf b = some (edit.key.getD newKey)) :
    Edited newKey edit blocks (l₁ ++ content.toBlock (edit.key.getD newKey) :: l₂)

section Spec

variable {newKey : String} (index : ℕ) {edit : BlockEdit} {blocks blocks' rest : List Json}

/-- A set puts its block into the rest of the blocks; by itself it keeps the place of the block that
it replaces, or the end. -/
theorem edited_of_set {content : BlockContent} {fallback : ℕ} (hop : edit.op = .set)
    (hblock : edit.block = some content) (hone : ¬ 1 < edit.anchors)
    (hunique : UniqueKeys keyOf rest) (hrest : without keyOf (edit.key.getD newKey) blocks = rest)
    (hfallback : edit.key.getD newKey ∉ blocks.filterMap keyOf ∧ fallback = rest.length ∨
      ∃ l₁ b l₂, blocks = l₁ ++ b :: l₂ ∧ rest = l₁ ++ l₂ ∧ fallback = l₁.length ∧
        keyOf b = some (edit.key.getD newKey))
    (h : (placementIndex rest edit index fallback).map
      (fun t => splice t 0 [content.toBlock (edit.key.getD newKey)] rest) = .ok blocks') :
    Edited newKey edit blocks blocks' := by
  obtain ⟨t, ht, rfl⟩ := map_eq_ok_iff.1 h
  have hle : fallback ≤ rest.length := by
    rcases hfallback with ⟨-, rfl⟩ | ⟨l₁, b, l₂, -, rfl, rfl, -⟩
    · exact le_rfl
    · simp
  obtain ⟨l₁, l₂, hsplit, rfl, hplaced, hstay⟩ := placed_of_placementIndex hone hunique hle ht
  rw [hsplit, splice_in]
  refine .set hop hblock (hrest.trans hsplit) hplaced fun hnone => ?_
  rcases hfallback with ⟨hnew, hlast⟩ | ⟨l₁', b, l₂', hblocks, hrest', hlength, hb⟩
  · left
    have hlength : l₁.length = (l₁ ++ l₂).length := hsplit ▸ (hstay hnone).trans hlast
    exact ⟨hnew, by simpa using hlength⟩
  · right
    obtain ⟨rfl, rfl⟩ := List.append_inj (hsplit.symm.trans hrest') ((hstay hnone).trans hlength)
    exact ⟨b, hblocks, hb⟩

/-- **What an edit does**, when it succeeds. -/
theorem edited_of_apply (hunique : UniqueKeys keyOf blocks)
    (hfresh : edit.key = none → newKey ∉ blocks.filterMap keyOf)
    (h : applyBlockEdit newKey index edit blocks = .ok blocks') :
    Edited newKey edit blocks blocks' := by
  by_cases hone : 1 < edit.anchors
  · rw [applyBlockEdit, if_pos hone] at h
    cases h
  rw [applyBlockEdit, if_neg hone] at h
  cases hop : edit.op with
  | set =>
    rw [hop] at h
    cases hblock : edit.block with
    | none =>
      rw [hblock] at h
      cases h
    | some content =>
      rw [hblock] at h
      dsimp only at h
      cases hkey : edit.key with
      | none =>
        rw [hkey] at h
        have hnew : edit.key.getD newKey ∉ blocks.filterMap keyOf := by
          rw [hkey]
          exact hfresh hkey
        refine edited_of_set index hop hblock hone hunique (without_eq_self hnew)
          (Or.inl ⟨hnew, rfl⟩) ?_
        rw [hkey]
        exact h
      | some k =>
        rw [hkey] at h
        -- A block with the key is taken out first; without one the edit adds a block.
        by_cases hk : k ∈ blocks.filterMap keyOf
        · obtain ⟨l₁, b, l₂, rfl, hb, h₁, h₂⟩ := hunique.split hk
          have hrest : without keyOf (edit.key.getD newKey) (l₁ ++ b :: l₂) = l₁ ++ l₂ := by
            rw [hkey]
            exact without_split hb h₁ h₂
          refine edited_of_set index hop hblock hone (hrest ▸ hunique.without) hrest
            (Or.inr ⟨l₁, b, l₂, rfl, rfl, rfl, by rw [hb, hkey]; rfl⟩) ?_
          simp only [Option.elim, locateKey_split hb h₁ h₂, List.length_singleton, lt_irrefl,
            if_false, if_true, List.headD, splice_out] at h
          rw [hkey]
          exact h
        · have hnew : edit.key.getD newKey ∉ blocks.filterMap keyOf := by
            rw [hkey]
            exact hk
          refine edited_of_set index hop hblock hone hunique (without_eq_self hnew)
            (Or.inl ⟨hnew, rfl⟩) ?_
          simp only [Option.elim, locateKey_of_notMem hk] at h
          rw [hkey]
          exact h
  | delete =>
    rw [hop] at h
    cases hkey : edit.key with
    | none =>
      rw [hkey] at h
      cases h
    | some k =>
      rw [hkey] at h
      obtain ⟨t, ht, hrest⟩ := bind_eq_ok_iff.1 h
      obtain ⟨l₁, b, l₂, rfl, rfl, hb, h₁, h₂⟩ := resolveOne_ok hunique ht
      rw [if_pos rfl, splice_out, ← without_split hb h₁ h₂] at hrest
      cases hrest
      exact .delete hop hkey
  | move =>
    rw [hop] at h
    cases hkey : edit.key with
    | none =>
      rw [hkey] at h
      cases h
    | some k =>
      rw [hkey] at h
      obtain ⟨t, ht, hplace⟩ := bind_eq_ok_iff.1 h
      obtain ⟨l₁, b, l₂, rfl, rfl, hb, h₁, h₂⟩ := resolveOne_ok hunique ht
      have hrest := without_split hb h₁ h₂
      rw [if_neg (by decide), splice_out, take_drop_split] at hplace
      by_cases hanchors : edit.anchors = 0
      · rw [if_pos hanchors] at hplace
        cases hplace
      rw [if_neg hanchors] at hplace
      obtain ⟨t, ht, rfl⟩ := map_eq_ok_iff.1 hplace
      obtain ⟨m₁, m₂, hsplit, rfl, hplaced, -⟩ :=
        placed_of_placementIndex hone (hrest ▸ hunique.without) le_rfl ht
      rw [hsplit, splice_in]
      exact .move hop hkey (by simp) hb (hrest.trans hsplit) hanchors hplaced

variable {failure : BlockEditFailure}

theorem index_of_resolveOne_error {k role : String}
    (h : resolveOne blocks k index role = .error failure) : failure.index = index := by
  unfold resolveOne at h
  split at h <;> cases h <;> rfl

theorem index_of_placementIndex_error {fallback : ℕ}
    (h : placementIndex blocks edit index fallback = .error failure) : failure.index = index := by
  unfold placementIndex at h
  split at h
  · cases h
  · cases h
  · split at h
    · cases h
    · exact index_of_resolveOne_error index (map_eq_error_iff.1 h)

/-- A failure is reported at the index of its edit. -/
theorem index_of_apply_error
    (h : applyBlockEdit newKey index edit blocks = .error failure) : failure.index = index := by
  unfold applyBlockEdit at h
  split at h
  · cases h
    rfl
  · split at h
    · split at h
      · cases h
        rfl
      · dsimp only at h
        split at h
        · cases h
          rfl
        · exact index_of_placementIndex_error index (map_eq_error_iff.1 h)
    · split at h
      · cases h
        rfl
      · rcases bind_eq_error_iff.1 h with h | ⟨t, -, h⟩
        · exact index_of_resolveOne_error index h
        · dsimp only at h
          split_ifs at h
          · cases h
            rfl
          · exact index_of_placementIndex_error index (map_eq_error_iff.1 h)

end Spec

/-! ### What an edit leaves -/

/-- The key of the block that an edit is about. -/
def BlockEdit.target (newKey : String) (edit : BlockEdit) : String :=
  edit.key.getD newKey

/-- What an edit makes of the block of its key: another one, or none. A move leaves it. -/
def BlockEdit.write (newKey : String) (edit : BlockEdit) : Option (String × Option Json) :=
  match edit.op with
  | .set => edit.block.map fun content =>
    (edit.target newKey, some (content.toBlock (edit.target newKey)))
  | .delete => some (edit.target newKey, none)
  | .move => none

/-- An edit that puts a block before or after another. -/
def BlockEdit.Anchored (edit : BlockEdit) : Prop :=
  edit.op ≠ .delete ∧ (edit.before ≠ none ∨ edit.after ≠ none)

/-- An edit that takes the block of a key away from its place. -/
def BlockEdit.Displaces (edit : BlockEdit) (k : String) : Prop :=
  edit.key = some k ∧ (edit.op ≠ .set ∨ edit.anchors ≠ 0)

section Edited

variable {newKey : String} {edit : BlockEdit} {blocks blocks' : List Json}

variable {k : String}

/-- A block that is written has the key that it is written for. -/
theorem keyOf_of_write {w : Json} (h : edit.write newKey = some (k, some w)) :
    keyOf w = some k := by
  unfold BlockEdit.write at h
  split at h
  · obtain ⟨content, -, hwrite⟩ := Option.map_eq_some_iff.1 h
    cases hwrite
    rfl
  · cases h
  · cases h

section Edits

variable (h : Edited newKey edit blocks blocks')

include h

theorem Edited.unique (hunique : UniqueKeys keyOf blocks) :
    UniqueKeys keyOf blocks' := by
  cases h with
  | delete => exact hunique.without
  | move hop hkey hb hbk hrest hanchors hplaced =>
    exact UniqueKeys.insert (hrest ▸ hunique.without) hbk (hrest ▸ notMem_keys_without)
  | set hop hblock hrest hplaced hstay =>
    exact UniqueKeys.insert (hrest ▸ hunique.without) (keyOf_toBlock _ _)
      (hrest ▸ notMem_keys_without)

/-- **What the blocks are after an edit**. -/
theorem Edited.mem (hunique : UniqueKeys keyOf blocks) (x : Json) :
    x ∈ blocks' ↔ match edit.write newKey with
      | none => x ∈ blocks
      | some (k, w) => w = some x ∨ x ∈ blocks ∧ keyOf x ≠ some k := by
  cases h with
  | delete hop hkey =>
    simp [BlockEdit.write, hop, BlockEdit.target, hkey, mem_without]
  | @move k b l₁ l₂ hop hkey hb hbk hrest hanchors hplaced =>
    simp only [BlockEdit.write, hop]
    rw [mem_insert, ← hrest, mem_without]
    constructor
    · rintro (rfl | ⟨hx, -⟩)
      · exact hb
      · exact hx
    · intro hx
      by_cases hxk : keyOf x = some k
      · exact Or.inl (hunique.eq_of_key hx hb hxk hbk)
      · exact Or.inr ⟨hx, hxk⟩
  | set hop hblock hrest hplaced hstay =>
    simp only [BlockEdit.write, hop, hblock, Option.map_some, BlockEdit.target]
    rw [mem_insert, ← hrest, mem_without, Option.some_inj, eq_comm]

/-- What holds of no block of the key does not see the edit. -/
theorem Edited.filter {p : Json → Bool}
    (hp : ∀ x, keyOf x = some (edit.target newKey) → p x = false) :
    blocks'.filter p = blocks.filter p := by
  cases h with
  | delete hop hkey =>
    rw [BlockEdit.target, hkey] at hp
    exact filter_without hp
  | move hop hkey hb hbk hrest hanchors hplaced =>
    rw [BlockEdit.target, hkey, Option.getD_some] at hp
    rw [filter_insert (hp _ hbk), ← hrest, filter_without hp]
  | set hop hblock hrest hplaced hstay =>
    rw [BlockEdit.target] at hp
    rw [filter_insert (hp _ (keyOf_toBlock _ _)), ← hrest, filter_without hp]

/-- The only new key is the one of the edit. -/
theorem Edited.keys (hk : k ∈ blocks'.filterMap keyOf) (hne : k ≠ edit.target newKey) :
    k ∈ blocks.filterMap keyOf := by
  obtain ⟨x, hx, hxk⟩ := List.mem_filterMap.1 hk
  have hfilter := h.filter (p := fun x => keyOf x ≠ some (edit.target newKey)) fun x hx => by
    simp [hx]
  have hkept : x ∈ blocks'.filter fun x => keyOf x ≠ some (edit.target newKey) :=
    List.mem_filter.2 ⟨hx, by simpa [hxk] using hne⟩
  rw [hfilter] at hkept
  exact List.mem_filterMap.2 ⟨x, (List.mem_filter.1 hkept).1, hxk⟩

/-- **A block is put before its anchor**, -/
theorem Edited.adjacent_before (hop : edit.op ≠ .delete) {a : String} (ha : edit.before = some a) :
    Adjacent keyOf (edit.target newKey) a blocks' := by
  cases h with
  | delete hdelete _ => exact absurd hdelete hop
  | move _ hkey hb hbk hrest hanchors hplaced =>
    obtain ⟨x, rest, rfl, hx⟩ := hplaced.before a ha
    rw [BlockEdit.target, hkey]
    exact Foundations.adjacent_before hbk hx
  | set _ hblock hrest hplaced hstay =>
    obtain ⟨x, rest, rfl, hx⟩ := hplaced.before a ha
    exact Foundations.adjacent_before (keyOf_toBlock _ _) hx

/-- or after it. -/
theorem Edited.adjacent_after (hop : edit.op ≠ .delete) {a : String} (ha : edit.after = some a) :
    Adjacent keyOf a (edit.target newKey) blocks' := by
  cases h with
  | delete hdelete _ => exact absurd hdelete hop
  | move _ hkey hb hbk hrest hanchors hplaced =>
    obtain ⟨rest, x, rfl, hx⟩ := hplaced.after a ha
    rw [BlockEdit.target, hkey]
    exact Foundations.adjacent_after hx hbk
  | set _ hblock hrest hplaced hstay =>
    obtain ⟨rest, x, rfl, hx⟩ := hplaced.after a ha
    exact Foundations.adjacent_after hx (keyOf_toBlock _ _)

omit h in
/-- Without an anchor, an edit puts its block at an end, or back where it was. -/
theorem ends_of_not_anchored (hop : edit.op ≠ .delete) (h : ¬ edit.Anchored)
    (hanchors : edit.anchors ≠ 0) {l₁ l₂ : List Json} (hplaced : Placed edit l₁ l₂) :
    l₁ = [] ∨ l₂ = [] := by
  have hnone : edit.before = none ∧ edit.after = none := by
    rw [BlockEdit.Anchored, not_and, not_or, not_not, not_not] at h
    exact h hop
  cases hp : edit.position with
  | none => exact absurd (by simp [BlockEdit.anchors, hnone, hp]) hanchors
  | some p =>
    cases p with
    | start => exact Or.inl (hplaced.start hp)
    | last => exact Or.inr (hplaced.last hp)

omit h in
/-- Putting a block at an end keeps neighbours of other keys. -/
theorem adjacent_of_ends {j t : String} {w : Json} {l₁ l₂ : List Json}
    (h : Adjacent keyOf j k blocks) (hrest : without keyOf t blocks = l₁ ++ l₂) (hj : t ≠ j)
    (hk : t ≠ k) (hends : l₁ = [] ∨ l₂ = []) : Adjacent keyOf j k (l₁ ++ w :: l₂) := by
  have hkept : Adjacent keyOf j k (l₁ ++ l₂) := hrest ▸ h.without hj hk
  rcases hends with rfl | rfl
  · exact hkept.cons w
  · rw [List.append_nil] at hkept
    exact hkept.concat w

/-- **An edit keeps neighbours** if it puts nothing between others, and displaces neither. -/
theorem Edited.keeps_adjacent
    (hfresh : edit.key = none → newKey ∉ blocks.filterMap keyOf) (hanchored : ¬ edit.Anchored)
    {j : String} (hj : ¬ edit.Displaces j) (hk : ¬ edit.Displaces k)
    (hadjacent : Adjacent keyOf j k blocks) : Adjacent keyOf j k blocks' := by
  have hother {t : String} (ht : edit.key = some t) (hdisplaces : edit.op ≠ .set ∨ edit.anchors ≠ 0)
      {i : String} (hi : ¬ edit.Displaces i) : t ≠ i := by
    rintro rfl
    exact hi ⟨ht, hdisplaces⟩
  cases h with
  | @delete t hop hkey =>
    have hdisplaces : edit.op ≠ .set ∨ edit.anchors ≠ 0 := Or.inl (by rw [hop]; decide)
    exact hadjacent.without (hother hkey hdisplaces hj) (hother hkey hdisplaces hk)
  | @move t b l₁ l₂ hop hkey hb hbk hrest hanchors hplaced =>
    have hdisplaces : edit.op ≠ .set ∨ edit.anchors ≠ 0 := Or.inr hanchors
    exact adjacent_of_ends hadjacent hrest (hother hkey hdisplaces hj) (hother hkey hdisplaces hk)
      (ends_of_not_anchored (by rw [hop]; decide) hanchored hanchors hplaced)
  | @set content l₁ l₂ hop hblock hrest hplaced hstay =>
    by_cases hanchors : edit.anchors = 0
    · rcases hstay hanchors with ⟨hnew, rfl⟩ | ⟨b, rfl, hb⟩
      · have hself := hrest
        rw [without_eq_self hnew, List.append_nil] at hself
        exact hself ▸ hadjacent.concat _
      · exact hadjacent.replace ((keyOf_toBlock _ _).trans hb.symm)
    · have hne {i : String} (hi : ¬ edit.Displaces i) (hmem : i ∈ blocks.filterMap keyOf) :
          edit.key.getD newKey ≠ i := by
        cases hkey : edit.key with
        | none =>
          rintro rfl
          exact hfresh hkey hmem
        | some t => exact hother hkey (Or.inr hanchors) hi
      exact adjacent_of_ends hadjacent hrest (hne hj hadjacent.left_mem)
        (hne hk hadjacent.right_mem)
        (ends_of_not_anchored (by rw [hop]; decide) hanchored hanchors hplaced)

end Edits

end Edited

/-! ### All edits -/

/-- The keys that edits are about. -/
def editTargets (newKey : ℕ → String) : ℕ → List BlockEdit → List String
  | _, [] => []
  | calls, edit :: edits =>
    edit.target (newKey calls) :: editTargets newKey (calls + edit.takesKey.toNat) edits

/-- What edits write, in their order. -/
def editWrites (newKey : ℕ → String) : ℕ → List BlockEdit → List (String × Option Json)
  | _, [] => []
  | calls, edit :: edits =>
    (edit.write (newKey calls)).toList ++ editWrites newKey (calls + edit.takesKey.toNat) edits

/-- What the last of some writes makes of the block of a key. -/
def lastWrite (writes : List (String × Option Json)) (k : String) : Option (Option Json) :=
  (writes.reverse.find? (·.1 = k)).map (·.2)

/-- New keys are new: no block has one, and no edit names one. -/
structure FreshKeys (newKey : ℕ → String) (calls : ℕ) (edits : List BlockEdit)
    (blocks : List Json) : Prop where
  injective : Function.Injective newKey
  unused : ∀ n, calls ≤ n → newKey n ∉ blocks.filterMap keyOf
  unnamed : ∀ n, ∀ edit ∈ edits, edit.key ≠ some (newKey n)

section Run

variable {newKey : ℕ → String} {index calls : ℕ} {edit : BlockEdit} {edits : List BlockEdit}
  {blocks blocks' result : List Json}

theorem FreshKeys.fresh (h : FreshKeys newKey calls (edit :: edits) blocks) :
    edit.key = none → newKey calls ∉ blocks.filterMap keyOf :=
  fun _ => h.unused calls le_rfl

/-- New keys stay new. -/
theorem FreshKeys.step (h : FreshKeys newKey calls (edit :: edits) blocks)
    (hedited : Edited (newKey calls) edit blocks blocks') :
    FreshKeys newKey (calls + edit.takesKey.toNat) edits blocks' where
  injective := h.injective
  unused n hn hmem := by
    refine h.unused n (le_trans (Nat.le_add_right _ _) hn) (hedited.keys hmem ?_)
    cases hkey : edit.key with
    | some t =>
      rw [BlockEdit.target, hkey, Option.getD_some]
      rintro rfl
      exact h.unnamed n edit List.mem_cons_self hkey
    | none =>
      rw [BlockEdit.target, hkey, Option.getD_none]
      intro heq
      obtain rfl := h.injective heq
      cases hedited with
      | delete _ hsome => exact absurd (hkey.symm.trans hsome) (by simp)
      | move _ hsome => exact absurd (hkey.symm.trans hsome) (by simp)
      | set hop =>
        have htakes : edit.takesKey = true := by simp [BlockEdit.takesKey, hop, hkey]
        rw [htakes] at hn
        exact absurd hn (Nat.not_succ_le_self n)
  unnamed n e he := h.unnamed n e (List.mem_cons_of_mem _ he)

/-- The edits that succeed go through, one after the other. -/
theorem editBlocks_cons_ok (h : editBlocks newKey index calls (edit :: edits) blocks = .ok result) :
    ∃ blocks', applyBlockEdit (newKey calls) index edit blocks = .ok blocks' ∧
      editBlocks newKey (index + 1) (calls + edit.takesKey.toNat) edits blocks' = .ok result :=
  bind_eq_ok_iff.1 h

/-- The new keys that edits take, one more edit first. -/
theorem takesKey_cons (calls : ℕ) (edit : BlockEdit) (edits : List BlockEdit) :
    calls + edit.takesKey.toNat + edits.countP (·.takesKey) =
      calls + (edit :: edits).countP (·.takesKey) := by
  rw [List.countP_cons]
  cases edit.takesKey <;> simp [Nat.add_assoc, Nat.add_comm 1]

/-- **The keys stay unique**, and new keys new, through the first of some edits. -/
theorem invariant_of_editBlocks {before after : List BlockEdit} (hunique : UniqueKeys keyOf blocks)
    (hfresh : FreshKeys newKey calls (before ++ after) blocks)
    (h : editBlocks newKey index calls before blocks = .ok result) :
    UniqueKeys keyOf result ∧
      FreshKeys newKey (calls + before.countP (·.takesKey)) after result := by
  induction before generalizing index calls blocks with
  | nil =>
    cases h
    exact ⟨hunique, hfresh⟩
  | cons edit before ih =>
    obtain ⟨blocks', hedit, hrest⟩ := editBlocks_cons_ok h
    have hedited := edited_of_apply index hunique hfresh.fresh hedit
    rw [← takesKey_cons]
    exact ih (hedited.unique hunique) (hfresh.step hedited) hrest

/-- **The other blocks stay, in their order**. -/
theorem filter_of_editBlocks (hunique : UniqueKeys keyOf blocks)
    (hfresh : FreshKeys newKey calls edits blocks) {p : Json → Bool}
    (hp : ∀ k ∈ editTargets newKey calls edits, ∀ x, keyOf x = some k → p x = false)
    (h : editBlocks newKey index calls edits blocks = .ok result) :
    result.filter p = blocks.filter p := by
  induction edits generalizing index calls blocks with
  | nil =>
    cases h
    rfl
  | cons edit edits ih =>
    obtain ⟨blocks', hedit, hrest⟩ := editBlocks_cons_ok h
    have hedited := edited_of_apply index hunique hfresh.fresh hedit
    rw [ih (hedited.unique hunique) (hfresh.step hedited)
      (fun k hk => hp k (List.mem_cons_of_mem _ hk)) hrest]
    exact hedited.filter (hp _ List.mem_cons_self)

theorem lastWrite_append (ws ws' : List (String × Option Json)) (k : String) :
    lastWrite (ws ++ ws') k = (lastWrite ws' k).or (lastWrite ws k) := by
  rw [lastWrite, List.reverse_append, List.find?_append, Option.map_or]
  rfl

/-- **The block of a key is the one that was written last**. -/
theorem mem_of_editBlocks (hunique : UniqueKeys keyOf blocks)
    (hfresh : FreshKeys newKey calls edits blocks)
    (h : editBlocks newKey index calls edits blocks = .ok result) {k : String} {x : Json}
    (hx : keyOf x = some k) :
    x ∈ result ↔ match lastWrite (editWrites newKey calls edits) k with
      | none => x ∈ blocks
      | some w => w = some x := by
  induction edits generalizing index calls blocks with
  | nil =>
    cases h
    exact Iff.rfl
  | cons edit edits ih =>
    obtain ⟨blocks', hedit, hrest⟩ := editBlocks_cons_ok h
    have hedited := edited_of_apply index hunique hfresh.fresh hedit
    rw [ih (hedited.unique hunique) (hfresh.step hedited) hrest, editWrites, lastWrite_append]
    cases lastWrite (editWrites newKey (calls + edit.takesKey.toNat) edits) k with
    | some w => exact Iff.rfl
    | none =>
      rw [Option.none_or]
      dsimp only
      rw [hedited.mem hunique]
      cases hwrite : edit.write (newKey calls) with
      | none => exact Iff.rfl
      | some write =>
        obtain ⟨t, w⟩ := write
        by_cases ht : t = k
        · subst ht
          simp [lastWrite, hx]
        · have hne : w ≠ some x := by
            rintro rfl
            exact ht (Option.some.inj ((keyOf_of_write hwrite).symm.trans hx))
          simp [lastWrite, ht, hne, hx, Ne.symm ht]

/-- **Neighbours stay neighbours** through edits that do not part them. -/
theorem adjacent_of_editBlocks (hunique : UniqueKeys keyOf blocks)
    (hfresh : FreshKeys newKey calls edits blocks) {j k : String}
    (hkeeps : ∀ e ∈ edits, ¬ e.Anchored ∧ ¬ e.Displaces j ∧ ¬ e.Displaces k)
    (hadjacent : Adjacent keyOf j k blocks)
    (h : editBlocks newKey index calls edits blocks = .ok result) : Adjacent keyOf j k result := by
  induction edits generalizing index calls blocks with
  | nil =>
    cases h
    exact hadjacent
  | cons edit edits ih =>
    obtain ⟨blocks', hedit, hrest⟩ := editBlocks_cons_ok h
    have hedited := edited_of_apply index hunique hfresh.fresh hedit
    obtain ⟨hanchored, hj, hk⟩ := hkeeps edit List.mem_cons_self
    exact ih (hedited.unique hunique) (hfresh.step hedited)
      (fun e he => hkeeps e (List.mem_cons_of_mem _ he))
      (hedited.keeps_adjacent hfresh.fresh hanchored hj hk hadjacent) hrest

/-- Edits go through if the first of them do, and then the rest. -/
theorem editBlocks_append_ok {before after : List BlockEdit} :
    editBlocks newKey index calls (before ++ after) blocks = .ok result ↔
      ∃ mid, editBlocks newKey index calls before blocks = .ok mid ∧
        editBlocks newKey (index + before.length) (calls + before.countP (·.takesKey)) after mid =
          .ok result := by
  induction before generalizing index calls blocks with
  | nil => simp [editBlocks]
  | cons edit before ih =>
    have hlength : index + 1 + before.length = index + (edit :: before).length := by
      rw [List.length_cons, Nat.add_assoc, Nat.add_comm 1]
    simp only [List.cons_append, editBlocks, bind_eq_ok_iff, ih, hlength, takesKey_cons]
    constructor
    · rintro ⟨a, ha, mid, hmid, hrest⟩
      exact ⟨mid, ⟨a, ha, hmid⟩, hrest⟩
    · rintro ⟨mid, ⟨a, ha, hmid⟩, hrest⟩
      exact ⟨a, ha, mid, hmid, hrest⟩

/-- **A failure is the first edit's** that cannot be applied to what the ones before it made. -/
theorem first_of_editBlocks_error {failure : BlockEditFailure}
    (h : editBlocks newKey index calls edits blocks = .error failure) :
    ∃ before e after mid, edits = before ++ e :: after ∧
      editBlocks newKey index calls before blocks = .ok mid ∧
      applyBlockEdit (newKey (calls + before.countP (·.takesKey))) (index + before.length) e mid =
        .error failure := by
  induction edits generalizing index calls blocks with
  | nil => cases h
  | cons edit edits ih =>
    rcases bind_eq_error_iff.1 h with h | ⟨blocks', hedit, h⟩
    · exact ⟨[], edit, edits, blocks, rfl, rfl, h⟩
    · obtain ⟨before, e, after, mid, rfl, hmid, he⟩ := ih h
      refine ⟨edit :: before, e, after, mid, rfl, bind_eq_ok_iff.2 ⟨blocks', hedit, hmid⟩, ?_⟩
      rw [← takesKey_cons, List.length_cons, Nat.add_comm before.length, ← Nat.add_assoc]
      exact he

end Run

/-! ### The law of block edits -/

/-- An edit that may part two neighbours: it puts a block beside another, or takes one of the two
away from its place. -/
def BlockEdit.Parts (edit : BlockEdit) (j k : String) : Prop :=
  edit.Anchored ∨ edit.Displaces j ∨ edit.Displaces k

/-- Whether no edit names the key of a block. -/
def isUnnamed (edits : List BlockEdit) (x : Json) : Bool :=
  edits.all fun edit => edit.key.isNone || keyOf x ≠ edit.key

/-- Whether no edit names the key of a block, or made it up. -/
def isUntouched (newKey : ℕ → String) (edits : List BlockEdit) (x : Json) : Bool :=
  (editTargets newKey 0 edits).all fun k => keyOf x ≠ some k

/-- **What edits make of blocks with unique keys**. -/
structure EditsExact (newKey : ℕ → String) (edits : List BlockEdit) (blocks result : List Json) :
    Prop where
  /-- The keys are unique. -/
  unique : UniqueKeys keyOf result
  /-- The blocks that no edit names are the same, in the same order. -/
  untouched : result.filter (isUntouched newKey edits) = blocks.filter (isUnnamed edits)
  /-- The block of a key is the one last set, none if it was last deleted, and else the old one. -/
  exact : ∀ k x, keyOf x = some k →
    (x ∈ result ↔ match lastWrite (editWrites newKey 0 edits) k with
      | none => x ∈ blocks
      | some w => w = some x)
  /-- A block is put next to its anchor, and stays there unless a later edit parts them. -/
  placed : ∀ before e after, edits = before ++ e :: after → e.op ≠ .delete →
    ∃ mid, editBlocks newKey 0 0 (before ++ [e]) blocks = .ok mid ∧
      let k := e.target (newKey (before.countP (·.takesKey)))
      (∀ a, e.before = some a → Adjacent keyOf k a mid ∧
        ((∀ later ∈ after, ¬ later.Parts k a) → Adjacent keyOf k a result)) ∧
      ∀ a, e.after = some a → Adjacent keyOf a k mid ∧
        ((∀ later ∈ after, ¬ later.Parts a k) → Adjacent keyOf a k result)

section Law

variable {newKey : ℕ → String} {edits : List BlockEdit} {blocks result : List Json}

/-- Of the blocks that were there, those are untouched that no edit names. -/
theorem filter_isUntouched (hfresh : FreshKeys newKey 0 edits blocks) :
    blocks.filter (isUntouched newKey edits) = blocks.filter (isUnnamed edits) := by
  refine List.filter_congr fun x hx => ?_
  have hnew (n : ℕ) : keyOf x ≠ some (newKey n) := fun hkey =>
    hfresh.unused n (Nat.zero_le n) (List.mem_filterMap.2 ⟨x, hx, hkey⟩)
  have hall (calls : ℕ) (edits : List BlockEdit) :
      ((editTargets newKey calls edits).all fun k => keyOf x ≠ some k) = isUnnamed edits x := by
    induction edits generalizing calls with
    | nil => rfl
    | cons edit edits ih =>
      rw [editTargets, List.all_cons, ih, isUnnamed, isUnnamed, List.all_cons]
      cases hkey : edit.key with
      | none => simp [BlockEdit.target, hkey, hnew calls]
      | some t => simp [BlockEdit.target, hkey]
  exact hall 0 edits

/-- The blocks after an edit among others, and how the later ones go on from there. -/
theorem edited_at {before after : List BlockEdit} {e : BlockEdit}
    (hunique : UniqueKeys keyOf blocks) (hfresh : FreshKeys newKey 0 (before ++ e :: after) blocks)
    (h : editBlocks newKey 0 0 (before ++ e :: after) blocks = .ok result) :
    ∃ old mid, Edited (newKey (before.countP (·.takesKey))) e old mid ∧
      editBlocks newKey 0 0 (before ++ [e]) blocks = .ok mid ∧ UniqueKeys keyOf mid ∧
      ∃ index calls, FreshKeys newKey calls after mid ∧
        editBlocks newKey index calls after mid = .ok result := by
  obtain ⟨old, hold, hrest⟩ := editBlocks_append_ok.1 h
  obtain ⟨mid, hedit, hafter⟩ := editBlocks_cons_ok hrest
  obtain ⟨hounique, hofresh⟩ := invariant_of_editBlocks hunique hfresh hold
  have hedited := edited_of_apply _ hounique hofresh.fresh hedit
  rw [Nat.zero_add] at hedited
  refine ⟨old, mid, hedited, ?_, hedited.unique hounique, _, _, ?_, hafter⟩
  · exact editBlocks_append_ok.2 ⟨old, hold, bind_eq_ok_iff.2 ⟨mid, hedit, rfl⟩⟩
  · rw [Nat.zero_add]
    rw [Nat.zero_add] at hofresh
    exact hofresh.step hedited

/-- **Edits are exact**. -/
theorem editsExact_of_ok (hunique : UniqueKeys keyOf blocks)
    (hfresh : FreshKeys newKey 0 edits blocks)
    (h : editBlocks newKey 0 0 edits blocks = .ok result) :
    EditsExact newKey edits blocks result where
  unique := by
    have hall : FreshKeys newKey 0 (edits ++ []) blocks := by rwa [List.append_nil]
    exact (invariant_of_editBlocks hunique hall h).1
  untouched := by
    rw [← filter_isUntouched hfresh]
    refine filter_of_editBlocks hunique hfresh (fun k hk x hx => ?_) h
    exact List.all_eq_false.2 ⟨k, hk, by simp [hx]⟩
  exact k x hx := mem_of_editBlocks hunique hfresh h hx
  placed before e after hsplit hop := by
    subst hsplit
    obtain ⟨old, mid, hedited, hmid, hmunique, index, calls, hmfresh, hrest⟩ :=
      edited_at hunique hfresh h
    have hkeeps {j k : String} (hparts : ∀ later ∈ after, ¬ later.Parts j k)
        (hadjacent : Adjacent keyOf j k mid) : Adjacent keyOf j k result := by
      refine adjacent_of_editBlocks hmunique hmfresh (fun later hlater => ?_) hadjacent hrest
      have hnot := hparts later hlater
      rwa [BlockEdit.Parts, not_or, not_or] at hnot
    refine ⟨mid, hmid, fun a ha => ?_, fun a ha => ?_⟩
    · have hnext := hedited.adjacent_before hop ha
      exact ⟨hnext, fun hparts => hkeeps hparts hnext⟩
    · have hnext := hedited.adjacent_after hop ha
      exact ⟨hnext, fun hparts => hkeeps hparts hnext⟩

end Law

/-- **Block edits are exact and atomic**: for every value that holds blocks with unique keys, and new
keys that are new. When the edits succeed, they do what `EditsExact` says; when they fail, the
failure is that of the first edit that cannot be applied to what the earlier ones made. -/
theorem block_edits_exact (newKey : ℕ → String) (value : Option Json) (edits : List BlockEdit)
    (blocks : List Json) (hvalue : blocksOf value = some blocks) (hunique : UniqueKeys keyOf blocks)
    (hfresh : FreshKeys newKey 0 edits blocks) :
    (∀ result, applyBlockEdits newKey value edits = .ok result →
      EditsExact newKey edits blocks result) ∧
    ∀ failure, applyBlockEdits newKey value edits = .error failure →
      ∃ before e after mid, edits = before ++ e :: after ∧ failure.index = before.length ∧
        applyBlockEdits newKey value before = .ok mid ∧
        applyBlockEdit (newKey (before.countP (·.takesKey))) before.length e mid =
          .error failure := by
  have hrun (edits : List BlockEdit) :
      applyBlockEdits newKey value edits = editBlocks newKey 0 0 edits blocks := by
    rw [applyBlockEdits, hvalue]
  constructor
  · intro result h
    exact editsExact_of_ok hunique hfresh (hrun edits ▸ h)
  · intro failure h
    obtain ⟨before, e, after, mid, hsplit, hmid, he⟩ := first_of_editBlocks_error (hrun edits ▸ h)
    rw [Nat.zero_add, Nat.zero_add] at he
    exact ⟨before, e, after, mid, hsplit, index_of_apply_error _ he, (hrun before).trans hmid, he⟩

/-! ### Edits of fixed blocks -/

/-- Three blocks. -/
def sampleBlocks : List Json :=
  ["a", "b", "c"].map fun key => BlockContent.toBlock ⟨"prose", []⟩ key

/-- New keys of growing length. -/
def sampleBlockKey (n : ℕ) : String :=
  .ofList ("cmb_".toList ++ List.replicate n 'x')

theorem sampleBlockKey_length (n : ℕ) : (sampleBlockKey n).toList.length = 4 + n := by
  rw [sampleBlockKey, String.toList_ofList, List.length_append, List.length_replicate]
  rfl

theorem freshKeys_sample {edits : List BlockEdit}
    (h : ∀ e ∈ edits, ∀ k, e.key = some k → k.toList.length = 1) :
    FreshKeys sampleBlockKey 0 edits sampleBlocks where
  injective m n hmn := by
    have hlength : (sampleBlockKey m).toList.length = (sampleBlockKey n).toList.length := by rw [hmn]
    rw [sampleBlockKey_length, sampleBlockKey_length] at hlength
    omega
  unused n _ hmem := by
    have hshort : ∀ k ∈ sampleBlocks.filterMap keyOf, k.toList.length = 1 := by decide +kernel
    have hlength := hshort _ hmem
    rw [sampleBlockKey_length] at hlength
    omega
  unnamed n e he hkey := by
    have hlength := h e he _ hkey
    rw [sampleBlockKey_length] at hlength
    omega

/-- A block is put after the second under a new key, the third is replaced, and the first moved to the
end. -/
def sampleEdits : List BlockEdit :=
  [{ op := .set, block := some ⟨"prose", []⟩, after := some "b" },
    { op := .set, key := some "c", block := some ⟨"quote", []⟩ },
    { op := .move, key := some "a", position := some .last }]

theorem block_edits_exact_sample :
    ∃ result, applyBlockEdits sampleBlockKey (some (.arr sampleBlocks)) sampleEdits = .ok result ∧
      result.map keyOf = [some "b", some "cmb_", some "c", some "a"] ∧
      EditsExact sampleBlockKey sampleEdits sampleBlocks result :=
  ⟨_, rfl, by decide +kernel,
    (block_edits_exact sampleBlockKey (some (.arr sampleBlocks)) sampleEdits sampleBlocks rfl
      (by decide +kernel) (freshKeys_sample (by decide +kernel))).1 _ rfl⟩

/-- **A placement may be undone**: a block is put after the last one, the only edit that names an
anchor, and then moved to the start. The edits succeed, and the two are not next to each other. -/
theorem placement_undone :
    let edits : List BlockEdit := [{ op := .move, key := some "a", after := some "c" },
      { op := .move, key := some "a", position := some .start }]
    UniqueKeys keyOf sampleBlocks ∧ FreshKeys sampleBlockKey 0 edits sampleBlocks ∧
      ∃ result, applyBlockEdits sampleBlockKey (some (.arr sampleBlocks)) edits = .ok result ∧
        result.map keyOf = [some "a", some "b", some "c"] ∧ ¬ Adjacent keyOf "c" "a" result :=
  ⟨by decide +kernel, freshKeys_sample (by decide +kernel), _, rfl, by decide +kernel,
    by decide +kernel⟩

end Munin
