import Munin.Foundations.Utf16Text

/-!
# Texts of URLs

What JavaScript's `encodeURI` makes of a text, and the scheme that a browser finds in one.

* **`encodeURI`** — all but the units that have a meaning in URLs are written by the octets of their
  UTF-8 form. It fails on a unit of a pair that stands alone. `mem_encodeURI` says what can be in
  its result.
* **`schemeOf`** — the scheme of a URL: a browser drops the controls and spaces at the ends, and
  all tabs and ends of lines, before it looks for one. Texts of URL units are read as they stand
  (`schemeOf_of_units`).
-/

namespace Foundations

/-! ### Units -/

def isAsciiLetter (u : ℕ) : Bool := (0x41 ≤ u && u ≤ 0x5a) || (0x61 ≤ u && u ≤ 0x7a)

def isAsciiDigit (u : ℕ) : Bool := 0x30 ≤ u && u ≤ 0x39

def isAsciiAlphanumeric (u : ℕ) : Bool := isAsciiLetter u || isAsciiDigit u

/-- The units that `encodeURI` leaves as they are. -/
def isUriUnit (u : ℕ) : Bool :=
  isAsciiAlphanumeric u || u ∈ [0x3b, 0x2f, 0x3f, 0x3a, 0x40, 0x26, 0x3d, 0x2b, 0x24, 0x2c, 0x2d,
    0x5f, 0x2e, 0x21, 0x7e, 0x2a, 0x27, 0x28, 0x29, 0x23]

/-- No unit of a URL is a control or a blank. -/
theorem lt_of_isUriUnit {u : ℕ} (h : isUriUnit u = true) : 0x20 < u := by
  simp only [isUriUnit, isAsciiAlphanumeric, isAsciiLetter, isAsciiDigit, Bool.or_eq_true,
    Bool.and_eq_true, decide_eq_true_eq, List.mem_cons, List.not_mem_nil, or_false] at h
  omega

/-! ### Percent encoding -/

/-- The code points of a text, unless a unit of a pair stands alone. -/
def codePoints : Utf16Text → Option (List ℕ)
  | [] => some []
  | u :: rest =>
    if isTrail u then none
    else if isLead u then
      match rest with
      | v :: rest =>
        if isTrail v then
          (codePoints rest).map (List.cons (0x10000 + (u - 0xd800) * 0x400 + (v - 0xdc00)))
        else none
      | [] => none
    else (codePoints rest).map (List.cons u)

/-- The octets of a code point in UTF-8. -/
def utf8Octets (p : ℕ) : List ℕ :=
  if p < 0x80 then [p]
  else if p < 0x800 then [0xc0 + p / 0x40, 0x80 + p % 0x40]
  else if p < 0x10000 then [0xe0 + p / 0x1000, 0x80 + p / 0x40 % 0x40, 0x80 + p % 0x40]
  else [0xf0 + p / 0x40000, 0x80 + p / 0x1000 % 0x40, 0x80 + p / 0x40 % 0x40, 0x80 + p % 0x40]

/-- A digit of an octet. -/
def octetDigit (d : ℕ) : ℕ := if d < 10 then 0x30 + d else 0x41 + (d - 10) % 6

/-- An octet as it stands in a URL. -/
def percentOctet (b : ℕ) : Utf16Text := [0x25, octetDigit (b / 16), octetDigit (b % 16)]

/-- `encodeURI(text)`, unless it throws. -/
def encodeURI (text : Utf16Text) : Option Utf16Text :=
  (codePoints text).map fun points => points.flatMap fun p =>
    if isUriUnit p then [p] else (utf8Octets p).flatMap percentOctet

theorem isUriUnit_octetDigit (d : ℕ) : isUriUnit (octetDigit d) = true := by
  have hdigit : isAsciiAlphanumeric (octetDigit d) = true := by
    unfold octetDigit
    split_ifs with h
    · simp only [isAsciiAlphanumeric, isAsciiLetter, isAsciiDigit, Bool.or_eq_true,
        Bool.and_eq_true, decide_eq_true_eq]
      omega
    · simp only [isAsciiAlphanumeric, isAsciiLetter, isAsciiDigit, Bool.or_eq_true,
        Bool.and_eq_true, decide_eq_true_eq]
      omega
  rw [isUriUnit, hdigit, Bool.true_or]

variable {text : Utf16Text}

/-- A unit of the result is a percent sign or a unit of URLs. -/
theorem mem_encodeURI {url : Utf16Text} (h : encodeURI text = some url) {u : ℕ}
    (hu : u ∈ url) : u = 0x25 ∨ isUriUnit u = true := by
  obtain ⟨points, -, rfl⟩ := Option.map_eq_some_iff.1 h
  obtain ⟨p, -, hp⟩ := List.mem_flatMap.1 hu
  split_ifs at hp with huri
  · exact .inr ((List.mem_singleton.1 hp) ▸ huri)
  · obtain ⟨b, -, hb⟩ := List.mem_flatMap.1 hp
    simp only [percentOctet, List.mem_cons, List.not_mem_nil, or_false] at hb
    rcases hb with rfl | rfl | rfl
    · exact .inl rfl
    · exact .inr (isUriUnit_octetDigit _)
    · exact .inr (isUriUnit_octetDigit _)

/-! ### Schemes -/

/-- The controls and the space, which a browser drops at the ends of a URL. -/
def isUrlEdge (u : ℕ) : Bool := u ≤ 0x20

/-- The tab and the ends of lines, which it drops anywhere. -/
def isUrlBreak (u : ℕ) : Bool := u ∈ [0x09, 0x0a, 0x0d]

/-- What a browser reads of a URL. -/
def urlInput (text : Utf16Text) : Utf16Text :=
  ((text.dropWhile isUrlEdge).rdropWhile isUrlEdge).filter fun u => !isUrlBreak u

/-- The units of a scheme behind its first letter. -/
def isSchemeUnit (u : ℕ) : Bool := isAsciiAlphanumeric u || u ∈ [0x2b, 0x2d, 0x2e]

/-- The scheme that a text has at its beginning, in lower case. -/
def schemeAt (text : Utf16Text) : Option Utf16Text :=
  if isAsciiLetter (unitAt text 0) = true ∧
      (text.dropWhile isSchemeUnit).head? = some 0x3a then
    some ((text.takeWhile isSchemeUnit).map asciiLower)
  else none

/-- The scheme that a browser finds in a URL. -/
def schemeOf (url : Utf16Text) : Option Utf16Text := schemeAt (urlInput url)

/-- A text without controls and blanks is read as it stands. -/
theorem urlInput_eq (h : ∀ u ∈ text, 0x20 < u) : urlInput text = text := by
  have hedge : ∀ u ∈ text, isUrlEdge u = false := fun u hu =>
    decide_eq_false (Nat.not_le.2 (h u hu))
  have hfront : text.dropWhile isUrlEdge = text := by
    rw [List.dropWhile_eq_self_iff]
    intro hpos
    rw [hedge _ (List.getElem_mem hpos)]
    exact Bool.false_ne_true
  have hback : text.rdropWhile isUrlEdge = text := by
    rw [List.rdropWhile_eq_self_iff]
    intro hne
    rw [hedge _ (List.getLast_mem hne)]
    exact Bool.false_ne_true
  rw [urlInput, hfront, hback, List.filter_eq_self]
  intro u hu
  have hlt := h u hu
  simp only [isUrlBreak, List.mem_cons, List.not_mem_nil, or_false, Bool.not_eq_true',
    decide_eq_false_iff_not]
  omega

theorem schemeOf_of_units {url : Utf16Text} (h : ∀ u ∈ url, 0x20 < u) :
    schemeOf url = schemeAt url := by
  rw [schemeOf, urlInput_eq h]

/-- A scheme is what stands before the first colon, with units of schemes only. -/
theorem schemeAt_spec {scheme : Utf16Text} (h : schemeAt text = some scheme) :
    ∃ name rest, text = name ++ 0x3a :: rest ∧ (∀ u ∈ name, isSchemeUnit u = true) ∧
      scheme = name.map asciiLower := by
  unfold schemeAt at h
  split_ifs at h with hscheme
  obtain ⟨rest, hrest⟩ := List.head?_eq_some_iff.1 hscheme.2
  refine ⟨_, rest, ?_, fun u hu => List.mem_takeWhile_imp hu, (Option.some.inj h).symm⟩
  rw [← hrest, List.takeWhile_append_dropWhile]

end Foundations
