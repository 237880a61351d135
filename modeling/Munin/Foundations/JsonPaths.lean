import Munin.Foundations.Json

/-!
# Paths into a value

A path leads into a value by indices of arrays and keys of objects.

* **`valueAt`** — the value at a path.
* **`Node`** — what a value is at a path: a leaf, or the shape of an array or an object. The nodes at
  all paths say what a value is, and two values differ in the paths at which their nodes do.
-/

namespace Foundations

inductive PathStep where
  | index (i : ℕ)
  | key (k : String)
  deriving DecidableEq

/-- The value one step down. -/
def Json.step : Json → PathStep → Option Json
  | .arr items, .index i => items[i]?
  | .obj fields, .key k => fields.lookup k
  | _, _ => none

def valueAt (value : Json) : List PathStep → Option Json
  | [] => some value
  | step :: path => (value.step step).bind fun v => valueAt v path

/-- A value without what is below it. -/
inductive Node where
  | leaf (value : Json)
  | array (length : ℕ)
  | object (keys : List String)

def Json.node : Json → Node
  | .arr items => .array items.length
  | .obj fields => .object (fields.map Prod.fst)
  | value => .leaf value

def nodeAt (value : Json) (path : List PathStep) : Option Node := (valueAt value path).map Json.node

@[simp]
theorem nodeAt_nil (value : Json) : nodeAt value [] = some value.node := rfl

theorem nodeAt_cons (value : Json) (step : PathStep) (path : List PathStep) :
    nodeAt value (step :: path) = (value.step step).bind fun v => nodeAt v path := by
  rw [nodeAt, valueAt, Option.map_bind]
  rfl

variable {path : List PathStep}

/-- A leaf that is a string is the value there. -/
theorem valueAt_eq_str_iff {value : Json} {s : String} :
    valueAt value path = some (.str s) ↔ nodeAt value path = some (.leaf (.str s)) := by
  rw [nodeAt]
  refine ⟨fun h => by rw [h]; rfl, fun h => ?_⟩
  obtain ⟨v, hv, hnode⟩ := Option.map_eq_some_iff.1 h
  rw [hv]
  cases v with
  | arr | obj => nomatch hnode
  | null | bool | num | str => exact congrArg some (Node.leaf.inj hnode)

/-- Two values of the same shape that differ in one step only. -/
theorem nodeAt_eq_update {value value' v v' : Json} {step : PathStep}
    {node : Option Node} (hnode : value'.node = value.node) (hv : value.step step = some v)
    (hv' : value'.step step = some v') (hother : ∀ other, other ≠ step →
      value'.step other = value.step other)
    (h : nodeAt v' = Function.update (nodeAt v) path node) :
    nodeAt value' = Function.update (nodeAt value) (step :: path) node := by
  funext q
  cases q with
  | nil => rw [Function.update_of_ne (List.cons_ne_nil _ _).symm, nodeAt_nil, nodeAt_nil, hnode]
  | cons other q =>
    by_cases hstep : other = step
    · subst hstep
      rw [nodeAt_cons, hv', Option.bind_some, h]
      by_cases hq : q = path
      · rw [hq, Function.update_self, Function.update_self]
      · rw [Function.update_of_ne hq, Function.update_of_ne fun heq => hq (List.cons.inj heq).2,
          nodeAt_cons, hv, Option.bind_some]
    · rw [Function.update_of_ne fun heq => hstep (List.cons.inj heq).1, nodeAt_cons, nodeAt_cons,
        hother other hstep]

end Foundations
