import Mathlib.Data.List.Basic

/-!
# JSON values and their compact text

The text that `JSON.stringify` gives a value, and the fact that matters of it: **two values with
the same text are the same value** (`stringify_injective`), so that comparing or hashing texts is
comparing values. Objects keep their fields in order, as JavaScript objects do; hence two objects
with the same fields in a different order have different texts.

The proof is unambiguity of the grammar, read from the left: a value followed by a character that
can follow one (`Follows`) determines both the value and the rest (`render_append_inj`). The
leaves come first (characters, strings, numbers), then the mutual induction over values, element
lists and field lists.
-/

namespace Foundations

/-! ### Values -/

/-- The characters a number's text is made of. -/
def isNumberChar (c : Char) : Bool :=
  c.isDigit || c == '+' || c == '-' || c == '.' || c == 'e'

/-- A number, as the text JavaScript prints it with. -/
structure NumberText where
  /-- The characters of the text. -/
  chars : List Char
  /-- There is at least one. -/
  nonempty : chars ≠ []
  /-- All of them occur in numbers. -/
  valid : ∀ c ∈ chars, isNumberChar c = true
  deriving DecidableEq

/-- The text of a natural number. -/
def NumberText.ofNat (n : Nat) : NumberText where
  chars := Nat.toDigits 10 n
  nonempty := Nat.toDigits_ne_nil
  valid c hc := by
    simp [isNumberChar, Nat.isDigit_of_mem_toDigits (by decide) (by decide) hc]

theorem NumberText.ofNat_injective {m n : Nat} (h : ofNat m = ofNat n) : m = n := by
  have hchars : Nat.toDigits 10 m = Nat.toDigits 10 n := congrArg NumberText.chars h
  rw [← Nat.ofDigitChars_ten_toDigits (n := m), hchars, Nat.ofDigitChars_ten_toDigits]

/-- A JSON value; an object is the list of its fields in their order. -/
inductive Json where
  | null
  | bool (b : Bool)
  | num (n : NumberText)
  | str (s : String)
  | arr (items : List Json)
  | obj (fields : List (String × Json))

/-! ### Text -/

/-- The lower-case hexadecimal digit of `n < 16`. -/
def hexDigit (n : Nat) : Char :=
  "0123456789abcdef".toList.getD n '0'

/-- The text of one character inside a string literal. -/
def escapeChar (c : Char) : List Char :=
  if c = '"' then ['\\', '"']
  else if c = '\\' then ['\\', '\\']
  else if c = '\x08' then ['\\', 'b']
  else if c = '\t' then ['\\', 't']
  else if c = '\n' then ['\\', 'n']
  else if c = '\x0c' then ['\\', 'f']
  else if c = '\r' then ['\\', 'r']
  else if c.toNat < 32 then ['\\', 'u', '0', '0', hexDigit (c.toNat / 16), hexDigit (c.toNat % 16)]
  else [c]

/-- A string literal. -/
def quote (s : String) : List Char :=
  '"' :: s.toList.flatMap escapeChar ++ ['"']

mutual

/-- The compact text of a value. -/
def Json.render : Json → List Char
  | .null => ['n', 'u', 'l', 'l']
  | .bool true => ['t', 'r', 'u', 'e']
  | .bool false => ['f', 'a', 'l', 's', 'e']
  | .num n => n.chars
  | .str s => quote s
  | .arr items => '[' :: renderItems items
  | .obj fields => '{' :: renderFields fields

/-- The items of an array, up to and with its closing bracket. -/
def renderItems : List Json → List Char
  | [] => [']']
  | x :: xs => x.render ++ renderMoreItems xs

/-- The items of an array after its first. -/
def renderMoreItems : List Json → List Char
  | [] => [']']
  | x :: xs => ',' :: (x.render ++ renderMoreItems xs)

/-- The fields of an object, up to and with its closing brace. -/
def renderFields : List (String × Json) → List Char
  | [] => ['}']
  | (k, x) :: fs => quote k ++ ':' :: (x.render ++ renderMoreFields fs)

/-- The fields of an object after its first. -/
def renderMoreFields : List (String × Json) → List Char
  | [] => ['}']
  | (k, x) :: fs => ',' :: (quote k ++ ':' :: (x.render ++ renderMoreFields fs))

end

/-- `JSON.stringify` of a value. -/
def Json.stringify (j : Json) : String :=
  .ofList j.render

example : (Json.obj [("a", .arr [.null, .bool true]), ("b", .str "x\"\n")]).stringify =
    "\x7b\"a\":[null,true],\"b\":\"x\\\"\\n\"\x7d" := by decide

/-! ### Strings are unambiguous -/

/-- Reads one character of a literal back, undoing `escapeChar`. -/
private def readChar : List Char → Option (Char × List Char)
  | [] => none
  | c :: r =>
    if c = '\\' then
      match r with
      | 'b' :: r => some ('\x08', r)
      | 't' :: r => some ('\t', r)
      | 'n' :: r => some ('\n', r)
      | 'f' :: r => some ('\x0c', r)
      | 'r' :: r => some ('\r', r)
      | 'u' :: '0' :: '0' :: h :: l :: r =>
        ((List.range 32).find? fun n => hexDigit (n / 16) = h && hexDigit (n % 16) = l).map
          fun n => (Char.ofNat n, r)
      | d :: r => some (d, r)
      | [] => none
    else some (c, r)

private theorem find_hex : ∀ n < 32, (List.range 32).find?
    (fun m => hexDigit (m / 16) = hexDigit (n / 16) && hexDigit (m % 16) = hexDigit (n % 16)) =
      some n := by
  decide

private theorem readChar_escapeChar (c : Char) (r : List Char) :
    readChar (escapeChar c ++ r) = some (c, r) := by
  unfold escapeChar
  split_ifs with h1 h2 h3 h4 h5 h6 h7 h8
  · subst h1; rfl
  · subst h2; rfl
  · subst h3; rfl
  · subst h4; rfl
  · subst h5; rfl
  · subst h6; rfl
  · subst h7; rfl
  · simp [readChar, find_hex _ h8]
  · simp [readChar, h2]

variable {c : Char} {r r' : List Char}

/-- An escaped character followed by anything determines the character and the rest. -/
theorem escapeChar_append_inj {d : Char}
    (h : escapeChar c ++ r = escapeChar d ++ r') : c = d ∧ r = r' := by
  have hread := readChar_escapeChar c r
  rw [h, readChar_escapeChar d r'] at hread
  cases hread
  exact ⟨rfl, rfl⟩

/-- No escaped character starts with the quote that ends a literal. -/
theorem escapeChar_append_ne_quote (c : Char) (r r' : List Char) :
    escapeChar c ++ r ≠ '"' :: r' := by
  unfold escapeChar
  split_ifs with h1 <;> simp_all

/-- The characters of a literal up to its closing quote determine the string. -/
theorem escape_append_inj {cs ds : List Char}
    (h : cs.flatMap escapeChar ++ '"' :: r = ds.flatMap escapeChar ++ '"' :: r') :
    cs = ds ∧ r = r' := by
  induction cs generalizing ds with
  | nil =>
    cases ds with
    | nil => exact ⟨rfl, by simpa using h⟩
    | cons d ds =>
      rw [List.flatMap_cons, List.append_assoc] at h
      exact absurd h.symm (escapeChar_append_ne_quote d _ _)
  | cons c cs ih =>
    cases ds with
    | nil =>
      rw [List.flatMap_cons, List.append_assoc] at h
      exact absurd h (escapeChar_append_ne_quote c _ _)
    | cons d ds =>
      simp only [List.flatMap_cons, List.append_assoc] at h
      obtain ⟨rfl, hrest⟩ := escapeChar_append_inj h
      obtain ⟨rfl, rfl⟩ := ih hrest
      exact ⟨rfl, rfl⟩

theorem quote_append_inj {s t : String} (h : quote s ++ r = quote t ++ r') : s = t ∧ r = r' := by
  simp only [quote, List.cons_append, List.append_assoc, List.cons.injEq, List.nil_append,
    true_and] at h
  obtain ⟨hs, hr⟩ := escape_append_inj h
  exact ⟨String.toList_inj.1 hs, hr⟩

/-! ### Numbers are unambiguous -/

/-- What may follow a value: nothing, or a character that ends it. -/
def Follows (r : List Char) : Prop :=
  ∀ c ∈ r.head?, c = ',' ∨ c = ']' ∨ c = '}'

private theorem Follows.cons (h : c = ',' ∨ c = ']' ∨ c = '}') : Follows (c :: r) := by
  rintro d hd
  obtain rfl : c = d := by simpa using hd
  exact h

private theorem takeWhile_number {n : List Char} (hn : ∀ c ∈ n, isNumberChar c = true)
    (hr : Follows r) : (n ++ r).takeWhile isNumberChar = n := by
  rw [List.takeWhile_append_of_pos hn]
  cases r with
  | nil => simp
  | cons c r =>
    have hc : isNumberChar c = false := by
      rcases hr c rfl with rfl | rfl | rfl <;> decide
    simp [hc]

theorem number_append_inj {m n : NumberText} (hr : Follows r)
    (hr' : Follows r') (h : m.chars ++ r = n.chars ++ r') : m = n ∧ r = r' := by
  have hchars : m.chars = n.chars := by
    rw [← takeWhile_number m.valid hr, h, takeWhile_number n.valid hr']
  refine ⟨?_, ?_⟩
  · cases m
    cases n
    simpa using hchars
  · rw [hchars] at h
    exact List.append_cancel_left h

/-! ### Values are unambiguous -/

/-- The kinds of values, told apart by the first character of the text. -/
private def kindOf (c : Char) : Nat :=
  if c = 'n' then 0 else if c = 't' then 1 else if c = 'f' then 2 else if c = '"' then 3
  else if c = '[' then 4 else if c = '{' then 5 else if isNumberChar c then 6 else 7

private def Json.kind : Json → Nat
  | .null => 0
  | .bool true => 1
  | .bool false => 2
  | .str _ => 3
  | .arr _ => 4
  | .obj _ => 5
  | .num _ => 6

private theorem kindOf_number (h : isNumberChar c = true) : kindOf c = 6 := by
  have hne : c ≠ 'n' ∧ c ≠ 't' ∧ c ≠ 'f' ∧ c ≠ '"' ∧ c ≠ '[' ∧ c ≠ '{' := by
    refine ⟨?_, ?_, ?_, ?_, ?_, ?_⟩ <;> rintro rfl <;> exact absurd h (by decide)
  simp [kindOf, hne, h]

/-- The first character of a value's text tells its kind. -/
private theorem head_render (a : Json) (r : List Char) :
    (a.render ++ r).head?.map kindOf = some a.kind := by
  cases a with
  | bool b => cases b <;> rfl
  | num n =>
    obtain ⟨c, cs, hc⟩ := List.exists_cons_of_ne_nil n.nonempty
    have hnum : isNumberChar c = true := n.valid c (by simp [hc])
    simp [Json.render, hc, kindOf_number hnum, Json.kind]
  | _ => simp [Json.render, quote, Json.kind, kindOf]

private theorem kind_eq {a b : Json} (h : a.render ++ r = b.render ++ r') : a.kind = b.kind := by
  have := head_render a r
  rw [h, head_render b r'] at this
  exact (Option.some.inj this).symm

/-- A value's text does not start with the bracket that ends an empty list. -/
private theorem render_append_ne_close (a : Json) (r r' : List Char) :
    a.render ++ r ≠ ']' :: r' := by
  intro h
  have := head_render a r
  rw [h] at this
  have h7 : (7 : Nat) = a.kind := Option.some.inj this
  cases a with
  | bool b => cases b <;> simp [Json.kind] at h7
  | _ => simp [Json.kind] at h7

private theorem renderMoreItems_follows (xs : List Json) (r : List Char) :
    Follows (renderMoreItems xs ++ r) := by
  cases xs <;> exact Follows.cons (by simp)

private theorem renderMoreFields_follows (fs : List (String × Json)) (r : List Char) :
    Follows (renderMoreFields fs ++ r) := by
  cases fs with
  | nil => exact Follows.cons (by simp)
  | cons f fs => exact Follows.cons (by simp)

mutual

/-- **Unambiguity.** A value followed by what may follow one determines the value and the rest. -/
theorem render_append_inj : ∀ (a b : Json) {r r' : List Char}, Follows r → Follows r' →
    a.render ++ r = b.render ++ r' → a = b ∧ r = r'
  | a, b, r, r', hr, hr', h => by
    have hk := kind_eq h
    match a, b with
    | .null, .null => exact ⟨rfl, by simpa [Json.render] using h⟩
    | .bool true, .bool true => exact ⟨rfl, by simpa [Json.render] using h⟩
    | .bool false, .bool false => exact ⟨rfl, by simpa [Json.render] using h⟩
    | .num m, .num n =>
      obtain ⟨rfl, rfl⟩ := number_append_inj hr hr' h
      exact ⟨rfl, rfl⟩
    | .str s, .str t =>
      obtain ⟨rfl, rfl⟩ := quote_append_inj h
      exact ⟨rfl, rfl⟩
    | .arr xs, .arr ys =>
      simp only [Json.render, List.cons_append, List.cons.injEq, true_and] at h
      obtain ⟨rfl, rfl⟩ := renderItems_append_inj xs ys h
      exact ⟨rfl, rfl⟩
    | .obj fs, .obj gs =>
      simp only [Json.render, List.cons_append, List.cons.injEq, true_and] at h
      obtain ⟨rfl, rfl⟩ := renderFields_append_inj fs gs h
      exact ⟨rfl, rfl⟩

theorem renderItems_append_inj : ∀ (xs ys : List Json) {r r' : List Char},
    renderItems xs ++ r = renderItems ys ++ r' → xs = ys ∧ r = r'
  | [], [], r, r', h => ⟨rfl, by simpa [renderItems] using h⟩
  | [], y :: ys, r, r', h => by
    simp only [renderItems, List.append_assoc] at h
    exact absurd h.symm (render_append_ne_close y _ _)
  | x :: xs, [], r, r', h => by
    simp only [renderItems, List.append_assoc] at h
    exact absurd h (render_append_ne_close x _ _)
  | x :: xs, y :: ys, r, r', h => by
    simp only [renderItems, List.append_assoc] at h
    obtain ⟨rfl, hrest⟩ := render_append_inj x y (renderMoreItems_follows xs r)
      (renderMoreItems_follows ys r') h
    obtain ⟨rfl, rfl⟩ := renderMoreItems_append_inj xs ys hrest
    exact ⟨rfl, rfl⟩

theorem renderMoreItems_append_inj : ∀ (xs ys : List Json) {r r' : List Char},
    renderMoreItems xs ++ r = renderMoreItems ys ++ r' → xs = ys ∧ r = r'
  | [], [], r, r', h => ⟨rfl, by simpa [renderMoreItems] using h⟩
  | [], y :: ys, r, r', h => by simp [renderMoreItems] at h
  | x :: xs, [], r, r', h => by simp [renderMoreItems] at h
  | x :: xs, y :: ys, r, r', h => by
    simp only [renderMoreItems, List.cons_append, List.append_assoc, List.cons.injEq,
      true_and] at h
    obtain ⟨rfl, hrest⟩ := render_append_inj x y (renderMoreItems_follows xs r)
      (renderMoreItems_follows ys r') h
    obtain ⟨rfl, rfl⟩ := renderMoreItems_append_inj xs ys hrest
    exact ⟨rfl, rfl⟩

theorem renderFields_append_inj : ∀ (fs gs : List (String × Json)) {r r' : List Char},
    renderFields fs ++ r = renderFields gs ++ r' → fs = gs ∧ r = r'
  | [], [], r, r', h => ⟨rfl, by simpa [renderFields] using h⟩
  | [], (k, y) :: gs, r, r', h => by simp [renderFields, quote] at h
  | (k, x) :: fs, [], r, r', h => by simp [renderFields, quote] at h
  | (k, x) :: fs, (l, y) :: gs, r, r', h => by
    simp only [renderFields, List.append_assoc, List.cons_append] at h
    obtain ⟨rfl, hvalue⟩ := quote_append_inj h
    obtain ⟨rfl, hrest⟩ := render_append_inj x y (renderMoreFields_follows fs r)
      (renderMoreFields_follows gs r') (List.cons.inj hvalue).2
    obtain ⟨rfl, rfl⟩ := renderMoreFields_append_inj fs gs hrest
    exact ⟨rfl, rfl⟩

theorem renderMoreFields_append_inj : ∀ (fs gs : List (String × Json)) {r r' : List Char},
    renderMoreFields fs ++ r = renderMoreFields gs ++ r' → fs = gs ∧ r = r'
  | [], [], r, r', h => ⟨rfl, by simpa [renderMoreFields] using h⟩
  | [], (k, y) :: gs, r, r', h => by simp [renderMoreFields] at h
  | (k, x) :: fs, [], r, r', h => by simp [renderMoreFields] at h
  | (k, x) :: fs, (l, y) :: gs, r, r', h => by
    simp only [renderMoreFields, List.append_assoc, List.cons_append, List.cons.injEq,
      true_and] at h
    obtain ⟨rfl, hvalue⟩ := quote_append_inj h
    obtain ⟨rfl, hrest⟩ := render_append_inj x y (renderMoreFields_follows fs r)
      (renderMoreFields_follows gs r') (List.cons.inj hvalue).2
    obtain ⟨rfl, rfl⟩ := renderMoreFields_append_inj fs gs hrest
    exact ⟨rfl, rfl⟩

end

/-- **Texts determine values.** -/
theorem Json.stringify_injective {a b : Json} (h : a.stringify = b.stringify) : a = b := by
  have hrender : a.render = b.render := String.ofList_injective h
  have hnil : Follows [] := fun c hc => by cases hc
  have happend : a.render ++ [] = b.render ++ [] := by rw [hrender]
  exact (render_append_inj a b hnil hnil happend).1

end Foundations
