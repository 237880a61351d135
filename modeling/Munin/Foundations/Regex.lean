import Munin.Foundations.Utf16Text

/-!
# Regular expressions

JavaScript's regular expressions without the flag `u`, over texts of UTF-16 units, as backtracking
searches: a run of an expression from a position gives the states in which it can end, in the order
in which the search tries them.

* **`Regex.parse`**, **`rx`** — the expression that a pattern writes.
* **`Regex.runs`** — the runs of an expression. The flag `i` compares units after `canonicalize`,
  which is the identity without the flag.
* **`Regex.exec`**, **`Regex.test`** — the first match in a text; `matchAll`, `replaceFirst` and
  `replaceAll` go on from it.
-/

namespace Foundations

/-! ### Expressions -/

/-- A class of units: those in some ranges, or all others. -/
structure UnitClass where
  ranges : List (ℕ × ℕ)
  negated : Bool
  deriving DecidableEq

/-- An expression. -/
inductive Regex where
  | empty
  | units (c : UnitClass)
  | seq (r s : Regex)
  | alt (r s : Regex)
  /-- `r{least,most}`; the search tries more turns first if it is greedy. -/
  | iter (r : Regex) (least : ℕ) (most : Option ℕ) (greedy : Bool)
  | group (n : ℕ) (r : Regex)
  | start
  | stop
  | boundary
  /-- `(?=r)` and `(?!r)`. -/
  | ahead (negated : Bool) (r : Regex)
  /-- `(?<=c)` and `(?<!c)`, for a class of units. -/
  | behind (negated : Bool) (c : UnitClass)
  /-- What a group has matched, once more. -/
  | backref (n : ℕ)
  deriving DecidableEq

namespace UnitClass

def digit : UnitClass := ⟨[(0x30, 0x39)], false⟩

def word : UnitClass := ⟨[(0x30, 0x39), (0x41, 0x5a), (0x5f, 0x5f), (0x61, 0x7a)], false⟩

/-- The ranges of the class `\s`. -/
def blankRanges : List (ℕ × ℕ) :=
  [(9, 13), (0x20, 0x20), (0xa0, 0xa0), (0x1680, 0x1680), (0x2000, 0x200a), (0x2028, 0x2029),
    (0x202f, 0x202f), (0x205f, 0x205f), (0x3000, 0x3000), (0xfeff, 0xfeff)]

/-- The ranges of the class `\S`. -/
def nonBlankRanges : List (ℕ × ℕ) :=
  [(0, 8), (14, 0x1f), (0x21, 0x9f), (0xa1, 0x167f), (0x1681, 0x1fff), (0x200b, 0x2027),
    (0x202a, 0x202e), (0x2030, 0x205e), (0x2060, 0x2fff), (0x3001, 0xfefe), (0xff00, 0xffff)]

/-- The class of the dot: everything but the ends of lines. -/
def dot : UnitClass := ⟨[(0x0a, 0x0a), (0x0d, 0x0d), (0x2028, 0x2029)], true⟩

/-- Whether the class has a unit. -/
def has (canonicalize : ℕ → ℕ) (c : UnitClass) (u : ℕ) : Bool :=
  (c.ranges.any fun r => (List.range' r.1 (r.2 + 1 - r.1)).any fun v =>
    canonicalize v == canonicalize u) != c.negated

end UnitClass

namespace Regex

/-- The groups of an expression. -/
def groups : Regex → List ℕ
  | seq r s | alt r s => r.groups ++ s.groups
  | iter r _ _ _ => r.groups
  | group n r => n :: r.groups
  | ahead _ r => r.groups
  | _ => []

/-- A state of the search: the position, and what each group has matched last. -/
structure State where
  pos : ℕ
  captures : List (ℕ × ℕ × ℕ)

/-- A turn of an iteration forgets what the groups in it have matched. -/
def State.forget (s : State) (groups : List ℕ) : State :=
  { s with captures := s.captures.filter fun c => !groups.contains c.1 }

def isWordUnit (u : ℕ) : Bool := UnitClass.word.has id u

/-- Whether the position is between a unit of a word and another one. -/
def atBoundary (text : Utf16Text) (i : ℕ) : Bool :=
  (0 < i && isWordUnit (unitAt text (i - 1))) != isWordUnit (unitAt text i)

/-- The turns of an iteration. A turn that is not required and matches nothing is not taken. -/
def turns (step : State → List State) (greedy : Bool) : ℕ → ℕ → Option ℕ → State → List State
  | 0, _, _, _ => []
  | fuel + 1, least, most, s =>
    let more :=
      if most = some 0 then []
      else ((step s).filter fun t => 0 < least || s.pos < t.pos).flatMap
        (turns step greedy fuel (least - 1) (most.map (· - 1)))
    if 0 < least then more else if greedy then more ++ [s] else s :: more

/-- The runs of an expression from a state, in the order of the search. -/
def runs (canonicalize : ℕ → ℕ) (text : Utf16Text) : Regex → State → List State
  | empty, s => [s]
  | units c, s =>
    if s.pos < text.length ∧ c.has canonicalize (unitAt text s.pos) = true then
      [{ s with pos := s.pos + 1 }]
    else []
  | seq r t, s => (runs canonicalize text r s).flatMap (runs canonicalize text t)
  | alt r t, s => runs canonicalize text r s ++ runs canonicalize text t s
  | iter r least most greedy, s =>
    turns (fun s => runs canonicalize text r (s.forget r.groups)) greedy
      (text.length + least + 1) least most s
  | group n r, s =>
    (runs canonicalize text r s).map fun t =>
      { t with captures := (n, s.pos, t.pos) :: t.captures.filter fun c => c.1 != n }
  | start, s => if s.pos = 0 then [s] else []
  | stop, s => if s.pos = text.length then [s] else []
  | boundary, s => if atBoundary text s.pos then [s] else []
  | ahead negated r, s =>
    match runs canonicalize text r s with
    | [] => if negated then [s] else []
    | t :: _ => if negated then [] else [{ t with pos := s.pos }]
  | behind negated c, s =>
    if (0 < s.pos && c.has canonicalize (unitAt text (s.pos - 1))) != negated then [s] else []
  | backref n, s =>
    match s.captures.lookup n with
    | none => [s]
    | some c =>
      let word := sliceUnits text c.1 c.2
      if (sliceUnits text s.pos (s.pos + word.length)).map canonicalize = word.map canonicalize then
        [{ s with pos := s.pos + word.length }]
      else []

/-- A match: where it begins and ends, and the groups. -/
structure Match where
  start : ℕ
  stop : ℕ
  captures : List (ℕ × ℕ × ℕ)

/-- What a group has matched, if it has taken part. -/
def Match.captured (m : Match) (text : Utf16Text) (n : ℕ) : Option Utf16Text :=
  (m.captures.lookup n).map fun c => sliceUnits text c.1 c.2

/-- The first match that begins at `i` or behind it. -/
def execFrom (canonicalize : ℕ → ℕ) (r : Regex) (text : Utf16Text) (i : ℕ) : Option Match :=
  (List.range' i (text.length + 1 - i)).findSome? fun start =>
    (runs canonicalize text r ⟨start, []⟩).head?.map fun s => ⟨start, s.pos, s.captures⟩

/-- `re.exec(text)`. -/
def exec (canonicalize : ℕ → ℕ) (r : Regex) (text : Utf16Text) : Option Match :=
  execFrom canonicalize r text 0

/-- `re.test(text)`. -/
def test (canonicalize : ℕ → ℕ) (r : Regex) (text : Utf16Text) : Bool :=
  (exec canonicalize r text).isSome

/-- The matches one after the other, from position `i` on; behind an empty match the search goes
on one unit later. -/
def matchAllFrom (canonicalize : ℕ → ℕ) (r : Regex) (text : Utf16Text) : ℕ → ℕ → List Match
  | 0, _ => []
  | fuel + 1, i =>
    match execFrom canonicalize r text i with
    | none => []
    | some m => m :: matchAllFrom canonicalize r text fuel
        (if m.stop = m.start then m.stop + 1 else m.stop)

/-- `text.matchAll(re)`. -/
def matchAll (canonicalize : ℕ → ℕ) (r : Regex) (text : Utf16Text) : List Match :=
  matchAllFrom canonicalize r text (text.length + 2) 0

/-- The text from `i` on with the matches replaced. -/
def replaceMatches (text new : Utf16Text) : ℕ → List Match → Utf16Text
  | i, [] => text.drop i
  | i, m :: rest => sliceUnits text i m.start ++ new ++ replaceMatches text new m.stop rest

/-- `text.replace(re, new)` without the flag `g`. -/
def replaceFirst (canonicalize : ℕ → ℕ) (r : Regex) (text new : Utf16Text) : Utf16Text :=
  replaceMatches text new 0 (exec canonicalize r text).toList

/-- `text.replace(re, new)` with the flag `g`. -/
def replaceAll (canonicalize : ℕ → ℕ) (r : Regex) (text new : Utf16Text) : Utf16Text :=
  replaceMatches text new 0 (matchAll canonicalize r text)

theorem isWordUnit_iff (u : ℕ) : isWordUnit u = true ↔
    0x30 ≤ u ∧ u ≤ 0x39 ∨ 0x41 ≤ u ∧ u ≤ 0x5a ∨ u = 0x5f ∨ 0x61 ≤ u ∧ u ≤ 0x7a := by
  have hrange : ∀ low high : ℕ,
      ((List.range' low (high + 1 - low)).any fun v => id v == id u) = true ↔
        low ≤ u ∧ u ≤ high := by
    intro low high
    simp only [List.any_eq_true, List.mem_range'_1, id, beq_iff_eq, exists_eq_right]
    omega
  simp only [isWordUnit, UnitClass.has, UnitClass.word, List.any_cons, List.any_nil,
    Bool.or_false, Bool.bne_false, Bool.or_eq_true, hrange]
  omega

/-! ### Patterns -/

/-- The expression for a character: its units one after the other. -/
def ofChar (c : Char) : Regex :=
  match charUtf16 c with
  | [u] => units ⟨[(u, u)], false⟩
  | us => us.foldr (fun u r => seq (units ⟨[(u, u)], false⟩) r) empty

/-- What a backslash and a character stand for. -/
def ofEscape : Char → Regex
  | 'b' => boundary
  | 'd' => units .digit
  | 'D' => units { UnitClass.digit with negated := true }
  | 'w' => units .word
  | 'W' => units { UnitClass.word with negated := true }
  | 's' => units ⟨UnitClass.blankRanges, false⟩
  | 'S' => units ⟨UnitClass.blankRanges, true⟩
  | 'n' => ofChar '\n'
  | 'r' => ofChar '\r'
  | 't' => ofChar '\t'
  | c => if '1' ≤ c ∧ c ≤ '9' then backref (c.toNat - 48) else ofChar c

/-- The ranges that a backslash and a character stand for within a class. -/
def rangesOfEscape : Char → List (ℕ × ℕ)
  | 'd' => UnitClass.digit.ranges
  | 'w' => UnitClass.word.ranges
  | 's' => UnitClass.blankRanges
  | 'S' => UnitClass.nonBlankRanges
  | 'n' => [(0x0a, 0x0a)]
  | 'r' => [(0x0d, 0x0d)]
  | 't' => [(0x09, 0x09)]
  | c => [(c.toNat, c.toNat)]

/-- The ranges of a class up to its closing bracket. -/
def parseRanges : List Char → Option (List (ℕ × ℕ) × List Char)
  | [] => none
  | ']' :: rest => some ([], rest)
  | '\\' :: c :: rest => (parseRanges rest).map fun p => (rangesOfEscape c ++ p.1, p.2)
  | c :: '-' :: ']' :: rest => some ([(c.toNat, c.toNat), (0x2d, 0x2d)], rest)
  | c :: '-' :: d :: rest => (parseRanges rest).map fun p => ((c.toNat, d.toNat) :: p.1, p.2)
  | c :: rest => (parseRanges rest).map fun p => ((c.toNat, c.toNat) :: p.1, p.2)

/-- A number at the beginning of a pattern. -/
def parseNumber (cs : List Char) : Option ℕ × List Char :=
  let digits := cs.takeWhile Char.isDigit
  (if digits = [] then none else some (digits.foldl (fun n c => 10 * n + (c.toNat - 48)) 0),
    cs.dropWhile Char.isDigit)

/-- The bounds of an iteration, if the pattern goes on with a quantifier. -/
def parseBounds : List Char → Option ((ℕ × Option ℕ) × List Char)
  | '*' :: rest => some ((0, none), rest)
  | '+' :: rest => some ((1, none), rest)
  | '?' :: rest => some ((0, some 1), rest)
  | '\x7b' :: rest =>
    match parseNumber rest with
    | (some least, '\x7d' :: rest) => some ((least, some least), rest)
    | (some least, ',' :: rest) =>
      match parseNumber rest with
      | (most, '\x7d' :: rest) => some ((least, most), rest)
      | _ => none
    | _ => none
  | _ => none

/-- An atom with the quantifier behind it. -/
def quantified (r : Regex) (rest : List Char) : Regex × List Char :=
  match parseBounds rest with
  | none => (r, rest)
  | some ((least, most), '?' :: rest) => (iter r least most false, rest)
  | some ((least, most), rest) => (iter r least most true, rest)

/-- The alternatives of a pattern up to a closing parenthesis or its end, and the number of the
next group. The flag says whether an alternative goes on, so that one function reads both the
alternatives and their parts. -/
def parseFrom : ℕ → Bool → List Char → ℕ → Option (Regex × List Char × ℕ)
  | 0, _, _, _ => none
  | fuel + 1, false, cs, n => do
    let (r, rest, n) ← parseFrom fuel true cs n
    match rest with
    | '|' :: rest =>
      let (s, rest, n) ← parseFrom fuel false rest n
      some (alt r s, rest, n)
    | _ => some (r, rest, n)
  | fuel + 1, true, cs, n => do
    let (atom, rest, n) ←
      match cs with
      | [] | ')' :: _ | '|' :: _ => some (none, cs, n)
      | '(' :: '?' :: ':' :: rest => do
        let (r, rest, n) ← parseFrom fuel false rest n
        match rest with
        | ')' :: rest => some (some r, rest, n)
        | _ => none
      | '(' :: '?' :: '=' :: rest => do
        let (r, rest, n) ← parseFrom fuel false rest n
        match rest with
        | ')' :: rest => some (some (ahead false r), rest, n)
        | _ => none
      | '(' :: '?' :: '!' :: rest => do
        let (r, rest, n) ← parseFrom fuel false rest n
        match rest with
        | ')' :: rest => some (some (ahead true r), rest, n)
        | _ => none
      | '(' :: '?' :: '<' :: '!' :: rest => do
        let (r, rest, n) ← parseFrom fuel false rest n
        match r, rest with
        | seq (units c) empty, ')' :: rest => some (some (behind true c), rest, n)
        | _, _ => none
      | '(' :: rest => do
        let (r, rest, n') ← parseFrom fuel false rest (n + 1)
        match rest with
        | ')' :: rest => some (some (group n r), rest, n')
        | _ => none
      | '[' :: '^' :: rest => do
        let (ranges, rest) ← parseRanges rest
        some (some (units ⟨ranges, true⟩), rest, n)
      | '[' :: rest => do
        let (ranges, rest) ← parseRanges rest
        some (some (units ⟨ranges, false⟩), rest, n)
      | '\\' :: c :: rest => some (some (ofEscape c), rest, n)
      | '^' :: rest => some (some start, rest, n)
      | '$' :: rest => some (some stop, rest, n)
      | '.' :: rest => some (some (units .dot), rest, n)
      | c :: rest => some (some (ofChar c), rest, n)
    match atom with
    | none => some (empty, rest, n)
    | some atom =>
      let (r, rest) := quantified atom rest
      let (s, rest, n) ← parseFrom fuel true rest n
      some (seq r s, rest, n)

/-- The expression of a pattern. -/
def parse (pattern : String) : Option Regex :=
  match parseFrom (2 * pattern.toList.length + 2) false pattern.toList 1 with
  | some (r, [], _) => some r
  | _ => none

end Regex

/-- The expression of a pattern; one that never matches if the pattern has none. -/
def rx (pattern : String) : Regex := (Regex.parse pattern).getD (.units ⟨[], false⟩)

end Foundations
