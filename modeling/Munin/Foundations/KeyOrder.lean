import Mathlib.Algebra.GroupWithZero.Nat
import Munin.Foundations.Json
import Mathlib.Data.List.Lex
import Mathlib.Data.List.Sort

/-!
# Objects sorted by their keys

An object keeps its fields in some order, and programs that compare objects by their texts first
sort the fields by key. Two orders on keys matter: JavaScript compares strings by their UTF-16
units, and PostgreSQL's `jsonb` keeps keys by length in bytes and then bytewise.

* **`utf16`, `jsonbRank`** — a string's rank in each order; both are injective.
* **`sortFields`** — the fields of an object sorted by the rank of their keys. Objects that have the
  same fields in any order, with distinct keys, have one sorted form (`sortFields_congr`).
* **`Json.jsonb`** — what a `jsonb` column returns for a value: each object with its keys in
  `jsonb`'s order.
-/

namespace Foundations

/-! ### UTF-16 -/

/-- The UTF-16 units of a character. -/
def charUtf16 (c : Char) : List ℕ :=
  if c.toNat < 0x10000 then [c.toNat]
  else [0xd800 + (c.toNat - 0x10000) / 0x400, 0xdc00 + (c.toNat - 0x10000) % 0x400]

/-- The UTF-16 units of a string; JavaScript's `<` on strings is their lexicographic order. -/
def utf16 (s : String) : List ℕ :=
  s.toList.flatMap charUtf16

/-- The units of a character followed by anything determine the character and the rest: no
character is numbered like the first unit of a pair. -/
theorem charUtf16_append_inj {c d : Char} {r r' : List ℕ}
    (h : charUtf16 c ++ r = charUtf16 d ++ r') : c = d ∧ r = r' := by
  have hvalid : ∀ e : Char, e.toNat < 0xd800 ∨ 0xdfff < e.toNat ∧ e.toNat < 0x110000 :=
    fun e => e.valid
  have hc := hvalid c
  have hd := hvalid d
  unfold charUtf16 at h
  split_ifs at h with hsmall hsmall'
  · simp only [List.cons_append, List.nil_append, List.cons.injEq] at h
    exact ⟨Char.toNat_inj.1 h.1, h.2⟩
  · simp only [List.cons_append, List.nil_append, List.cons.injEq] at h
    omega
  · simp only [List.cons_append, List.nil_append, List.cons.injEq] at h
    omega
  · simp only [List.cons_append, List.nil_append, List.cons.injEq] at h
    obtain ⟨hhigh, hlow, hrest⟩ := h
    have hnat : c.toNat = d.toNat := by omega
    exact ⟨Char.toNat_inj.1 hnat, hrest⟩

theorem charUtf16_ne_nil (c : Char) : charUtf16 c ≠ [] := by
  unfold charUtf16
  split_ifs <;> simp

theorem utf16_injective : Function.Injective utf16 := by
  have hlist : ∀ cs ds : List Char, cs.flatMap charUtf16 = ds.flatMap charUtf16 → cs = ds := by
    intro cs
    induction cs with
    | nil =>
      intro ds h
      cases ds with
      | nil => rfl
      | cons d ds =>
        rw [List.flatMap_nil, List.flatMap_cons] at h
        exact absurd (List.append_eq_nil_iff.1 h.symm).1 (charUtf16_ne_nil d)
    | cons c cs ih =>
      intro ds h
      cases ds with
      | nil =>
        rw [List.flatMap_nil, List.flatMap_cons] at h
        exact absurd (List.append_eq_nil_iff.1 h).1 (charUtf16_ne_nil c)
      | cons d ds =>
        rw [List.flatMap_cons, List.flatMap_cons] at h
        obtain ⟨rfl, hrest⟩ := charUtf16_append_inj h
        rw [ih ds hrest]
  intro s t h
  exact String.toList_inj.1 (hlist _ _ h)

/-! ### The order of `jsonb` -/

/-- The bytes of a string in UTF-8. -/
def utf8 (s : String) : List UInt8 :=
  s.toList.flatMap String.utf8EncodeChar

/-- A key's rank in a `jsonb` object: its length in bytes, then its bytes. -/
def jsonbRank (s : String) : List ℕ :=
  (utf8 s).length :: (utf8 s).map UInt8.toNat

/-! ### Sorting -/

section Sorting

variable {α β : Type*} {rank : String → List ℕ}

/-- The fields of an object, sorted by the rank of their keys. -/
def sortFields (rank : String → List ℕ) (fields : List (String × α)) : List (String × α) :=
  fields.insertionSort fun a b => rank a.1 ≤ rank b.1

theorem sortFields_perm (rank : String → List ℕ) (fields : List (String × α)) :
    (sortFields rank fields).Perm fields :=
  List.perm_insertionSort _ _

theorem sortFields_pairwise (rank : String → List ℕ) (fields : List (String × α)) :
    (sortFields rank fields).Pairwise fun a b => rank a.1 ≤ rank b.1 := by
  have : Std.Total fun a b : String × α => rank a.1 ≤ rank b.1 := ⟨fun a b => le_total _ _⟩
  have : IsTrans (String × α) fun a b => rank a.1 ≤ rank b.1 := ⟨fun _ _ _ => le_trans⟩
  exact List.pairwise_insertionSort _ _

variable {fields : List (String × α)}

/-- In a list of fields with distinct keys, a key determines its field. -/
theorem eq_of_key_eq (hnodup : (fields.map (·.1)).Nodup)
    {a b : String × α} (ha : a ∈ fields) (hb : b ∈ fields) (h : a.1 = b.1) : a = b :=
  List.inj_on_of_nodup_map hnodup ha hb h

/-- **One sorted form.** Objects with the same fields in any order sort to the same list. -/
theorem sortFields_congr (hrank : Function.Injective rank) {fields' : List (String × α)}
    (hnodup : (fields.map (·.1)).Nodup) (hperm : fields.Perm fields') :
    sortFields rank fields = sortFields rank fields' := by
  have hsorted : (sortFields rank fields).Perm (sortFields rank fields') :=
    (sortFields_perm rank fields).trans (hperm.trans (sortFields_perm rank fields').symm)
  refine hsorted.eq_of_pairwise (fun a b ha hb hab hba => ?_) (sortFields_pairwise rank fields)
    (sortFields_pairwise rank fields')
  have hkey : a.1 = b.1 := hrank (le_antisymm hab hba)
  have ha' : a ∈ fields := (sortFields_perm rank fields).mem_iff.1 ha
  have hb' : b ∈ fields := hperm.mem_iff.2 ((sortFields_perm rank fields').mem_iff.1 hb)
  exact eq_of_key_eq hnodup ha' hb' hkey

/-- **Sorting changes nothing exactly if the keys are in order already.** -/
theorem sortFields_eq_self_iff :
    sortFields rank fields = fields ↔ fields.Pairwise fun a b => rank a.1 ≤ rank b.1 := by
  constructor
  · intro h
    rw [← h]
    exact sortFields_pairwise rank fields
  · exact List.Pairwise.insertionSort_eq

/-- Sorting by key does not look at the values. -/
theorem sortFields_map (g : α → β) (fields : List (String × α)) :
    sortFields rank (fields.map fun f => (f.1, g f.2)) =
      (sortFields rank fields).map fun f => (f.1, g f.2) :=
  (List.map_insertionSort (fun a b : String × α => rank a.1 ≤ rank b.1) _
    (fun f : String × α => (f.1, g f.2)) fields fun _ _ _ _ => Iff.rfl).symm

end Sorting

/-! ### Values in a `jsonb` column -/

mutual

/-- What a `jsonb` column returns for a value, whose objects have distinct keys. -/
def Json.jsonb : Json → Json
  | .arr items => .arr (jsonbItems items)
  | .obj fields => .obj (sortFields jsonbRank (jsonbFields fields))
  | .null => .null
  | .bool b => .bool b
  | .num n => .num n
  | .str s => .str s

def jsonbItems : List Json → List Json
  | [] => []
  | x :: xs => x.jsonb :: jsonbItems xs

def jsonbFields : List (String × Json) → List (String × Json)
  | [] => []
  | (k, x) :: fs => (k, x.jsonb) :: jsonbFields fs

end

mutual

/-- Every object in the value has distinct keys, as JavaScript objects have. -/
def Json.WellKeyed : Json → Prop
  | .arr items => WellKeyedItems items
  | .obj fields => (fields.map (·.1)).Nodup ∧ WellKeyedFields fields
  | .null | .bool _ | .num _ | .str _ => True

def WellKeyedItems : List Json → Prop
  | [] => True
  | x :: xs => x.WellKeyed ∧ WellKeyedItems xs

def WellKeyedFields : List (String × Json) → Prop
  | [] => True
  | f :: fs => f.2.WellKeyed ∧ WellKeyedFields fs

end

/-- Storing an object changes the values of its fields, not their keys. -/
theorem jsonbFields_eq_map (fields : List (String × Json)) :
    jsonbFields fields = fields.map fun f => (f.1, f.2.jsonb) := by
  induction fields with
  | nil => rfl
  | cons f fs ih =>
    obtain ⟨k, x⟩ := f
    rw [jsonbFields, ih, List.map_cons]

theorem wellKeyedFields_iff (fields : List (String × Json)) :
    WellKeyedFields fields ↔ ∀ f ∈ fields, f.2.WellKeyed := by
  induction fields with
  | nil => simp [WellKeyedFields]
  | cons f fs ih => simp [WellKeyedFields, ih]

mutual

/-- Values that come back from a `jsonb` column have distinct keys again. -/
theorem Json.WellKeyed.jsonb : ∀ {value : Json}, value.WellKeyed → value.jsonb.WellKeyed
  | .arr items, h => by
    rw [Json.jsonb, Json.WellKeyed]
    exact WellKeyedItems.jsonb h
  | .obj fields, h => by
    have hperm := sortFields_perm jsonbRank (jsonbFields fields)
    rw [Json.jsonb, Json.WellKeyed, wellKeyedFields_iff]
    refine ⟨(hperm.map _).nodup_iff.2 ?_, fun f hf => ?_⟩
    · rw [jsonbFields_eq_map, List.map_map]
      exact h.1
    · exact (wellKeyedFields_iff _).1 (WellKeyedFields.jsonb h.2) f (hperm.mem_iff.1 hf)
  | .null, h => h
  | .bool _, h => h
  | .num _, h => h
  | .str _, h => h

theorem WellKeyedItems.jsonb :
    ∀ {items : List Json}, WellKeyedItems items → WellKeyedItems (jsonbItems items)
  | [], h => h
  | _ :: _, h => ⟨h.1.jsonb, WellKeyedItems.jsonb h.2⟩

theorem WellKeyedFields.jsonb :
    ∀ {fields : List (String × Json)}, WellKeyedFields fields → WellKeyedFields (jsonbFields fields)
  | [], h => h
  | (_, _) :: _, h => ⟨h.1.jsonb, WellKeyedFields.jsonb h.2⟩

end

end Foundations
