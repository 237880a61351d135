import Munin.Foundations.JsString
import Munin.Foundations.Json

/-!
# What the modules share

* **`Actor`, `ChannelType`** — who asks for something, and the channels of a message.
* **`Record`** — records of JSON values, whose fields keep the order in which they were set.
* **`Distinguishes`** — what is assumed of the digest `sha256Hex`, the hexadecimal SHA-256 of a
  text, where two fingerprints are compared: the first 32 digits of its value tell two given texts
  apart.
-/

namespace Munin

open Foundations

/-! ### Actors -/

/-- The kinds of actor behind a request. -/
inductive ActorType where
  | user
  | adminAgent
  | widgetAgent
  | endUserAgent
  | partner
  | system
  deriving DecidableEq

/-- The actor's kind as the code spells it. -/
def ActorType.text : ActorType → String
  | .user => "user"
  | .adminAgent => "admin_agent"
  | .widgetAgent => "widget_agent"
  | .endUserAgent => "end_user_agent"
  | .partner => "partner"
  | .system => "system"

/-- Who makes a request. -/
structure Actor where
  type : ActorType
  id : String

/-! ### Channels -/

/-- The channels of a message. -/
inductive ChannelType where
  | email
  | sms
  | voice
  | chat
  deriving DecidableEq

def ChannelType.text : ChannelType → String
  | .email => "email"
  | .sms => "sms"
  | .voice => "voice"
  | .chat => "chat"

/-! ### Records -/

/-- A field set on an object: in place if it is there, else at the end. Node ids are no array
indices (`NODE_ID_PATTERN`), so objects keep them in the order in which they were set. -/
def setField {α : Type*} (fields : List (String × α)) (key : String) (value : α) :
    List (String × α) :=
  if fields.any (·.1 = key) then fields.map fun f => if f.1 = key then (key, value) else f
  else fields ++ [(key, value)]

/-- The value of the field that was set. -/
theorem lookup_setField_self {α : Type*} (fields : List (String × α)) (key : String) (value : α) :
    (setField fields key value).lookup key = some value := by
  unfold setField
  induction fields with
  | nil => simp
  | cons f fs ih =>
    obtain ⟨k, x⟩ := f
    by_cases hk : k = key
    · simp [hk]
    · have hne : (key == k) = false := beq_eq_false_iff_ne.2 (Ne.symm hk)
      by_cases hany : fs.any (·.1 = key)
      · rw [if_pos hany] at ih
        simp [hk, hany, List.lookup_cons, hne, ih]
      · rw [if_neg hany] at ih
        simp [hk, hany, List.lookup_cons, hne, ih]

/-- An object that has the key keeps its keys. -/
theorem keys_setField {α : Type*} {fields : List (String × α)} {key : String} {old : α}
    (h : fields.lookup key = some old) (value : α) :
    (setField fields key value).map Prod.fst = fields.map Prod.fst := by
  obtain ⟨before, after, hfields, -⟩ := List.lookup_eq_some_iff.1 h
  have hany : (fields.any (·.1 = key)) = true := by
    rw [hfields, List.any_append, List.any_cons, decide_eq_true rfl, Bool.true_or, Bool.or_true]
  rw [setField, if_pos hany, List.map_map]
  refine List.map_congr_left fun f _ => ?_
  rw [Function.comp_apply]
  split_ifs with hkey
  · exact hkey.symm
  · rfl

/-- The other fields stay. -/
theorem lookup_setField_of_ne {α : Type*} (fields : List (String × α)) {key other : String}
    (value : α) (h : other ≠ key) :
    (setField fields key value).lookup other = fields.lookup other := by
  have hmap : ∀ fs : List (String × α),
      (fs.map fun f => if f.1 = key then (key, value) else f).lookup other = fs.lookup other := by
    intro fs
    induction fs with
    | nil => rfl
    | cons f fs ih =>
      obtain ⟨k, x⟩ := f
      rw [List.map_cons]
      by_cases hk : k = key
      · subst hk
        have hne : (other == k) = false := beq_eq_false_iff_ne.2 h
        simp [List.lookup_cons, hne, ih]
      · simp [hk, List.lookup_cons, ih]
  unfold setField
  split
  · exact hmap fields
  · induction fields with
    | nil =>
      have hne : (other == key) = false := beq_eq_false_iff_ne.2 h
      simp [List.lookup_cons, hne]
    | cons f fs ih =>
      rename_i hany
      obtain ⟨k, x⟩ := f
      have hrest : ¬ fs.any (·.1 = key) = true := fun hfs => hany (by simp [hfs])
      rw [List.cons_append, List.lookup_cons, List.lookup_cons]
      cases other == k with
      | true => rfl
      | false => exact ih hrest

/-- A record of JSON values. -/
abbrev Record := List (String × Json)

/-- `{ ...r, ...s }`. -/
def Record.spread (r s : Record) : Record :=
  s.foldl (fun r f => setField r f.1 f.2) r

/-- A field of a record that another was spread over is one of the former, or one of the latter. -/
theorem lookup_spread (r s : Record) (key : String) :
    (r.spread s).lookup key = r.lookup key ∨
      ∃ f ∈ s, f.1 = key ∧ (r.spread s).lookup key = some f.2 := by
  induction s generalizing r with
  | nil => exact .inl rfl
  | cons f fs ih =>
    rw [Record.spread, List.foldl_cons]
    rcases ih (setField r f.1 f.2) with hold | ⟨g, hg, hkey, hnew⟩
    · by_cases hf : f.1 = key
      · refine .inr ⟨f, List.mem_cons_self, hf, hold.trans ?_⟩
        rw [hf, lookup_setField_self]
      · exact .inl (hold.trans (lookup_setField_of_ne _ _ (Ne.symm hf)))
    · exact .inr ⟨g, List.mem_cons_of_mem f hg, hkey, hnew⟩

/-- The value of a field that is a text. -/
def Record.text (r : Record) (key : String) : Option String :=
  match r.lookup key with
  | some (.str s) => some s
  | _ => none

/-- The value of a field that is an object. -/
def Record.object (r : Record) (key : String) : Option Record :=
  match r.lookup key with
  | some (.obj fields) => some fields
  | _ => none

/-- Whether JavaScript takes a value for true. -/
def jsTruthy : Option Json → Bool
  | none | some .null | some (.bool false) => false
  | some (.str s) => s != ""
  | some (.num n) => n.chars != ['0'] && n.chars != ['-', '0']
  | some (.bool true) | some (.arr _) | some (.obj _) => true

/-! ### Digests -/

/-- A text or `null`. -/
def jsonOrNull : Option String → Json
  | none => .null
  | some s => .str s

theorem jsonOrNull_injective {a b : Option String} (h : jsonOrNull a = jsonOrNull b) : a = b := by
  cases a <;> cases b <;> simp_all [jsonOrNull]

/-- The digest does not confuse these two texts. -/
def Distinguishes (sha256Hex : String → String) (s t : String) : Prop :=
  jsTake 32 (sha256Hex s) = jsTake 32 (sha256Hex t) → s = t

end Munin
