import Munin.Foundations.DisjointRanges
import Munin.Foundations.Utf16Text

/-!
# National ids

Numbers that look like national ids are found in a text and replaced, with part of their digits
left or by a marker. A number is a run of digits, or two runs with a separator between them, whose
lengths tell the three patterns apart; checksums and dates decide which of them are ids.

* **`findNationalIds`**, **`redactNationalIds`** — the search and the replacement.
* **`IsHit`** — a pattern matches at a position. Two matches are the same range or do not overlap
  (`IsHit.same_or_apart`), so the scans pass over none of them (`mem_matchAll_iff`).
* **`Rewritten`** — a text with some ranges replaced and the rest left as it is.
* **`redaction_complete`** — the ids found are one behind the other, redaction replaces them and
  nothing else, and in the redacted text nothing is found.
-/

namespace Munin.NationalIds

open Foundations

/-- The kinds of numbers. -/
inductive NationalIdDetector where
  | noFnr
  | sePnr
  | dkCpr
  deriving DecidableEq

/-- How sure a hit is. -/
inductive NationalIdConfidence where
  | high
  | medium

/-- A policy other than `off`. -/
inductive RedactionMode where
  | mask
  | remove

/-- Where an id stands; the source calls `stop` its `end`. -/
structure NationalIdMatch where
  detector : NationalIdDetector
  confidence : NationalIdConfidence
  start : ℕ
  stop : ℕ

/-- A match with its digits. -/
structure Candidate extends NationalIdMatch where
  digits : Utf16Text

/-! ### Checks -/

/-- The weights of the first check digit. -/
def noK1Weights : List ℕ := [3, 7, 6, 1, 8, 9, 4, 5, 2]

/-- The weights of the second one. -/
def noK2Weights : List ℕ := [5, 4, 3, 2, 7, 6, 5, 4, 3, 2]

/-- February counts as in a leap year. -/
def daysInMonth : List ℕ := [31, 29, 31, 30, 31, 30, 31, 31, 30, 31, 30, 31]

/-- The value of the digit at a position. -/
def digitValue (digits : Utf16Text) (i : ℕ) : ℕ := unitAt digits i - 48

/-- The number that the two digits at a position write. -/
def twoDigits (digits : Utf16Text) (i : ℕ) : ℕ :=
  digitValue digits i * 10 + digitValue digits (i + 1)

/-- A day of a month. -/
def isValidDate (day month : ℕ) : Bool :=
  1 ≤ month && month ≤ 12 && 1 ≤ day && day ≤ daysInMonth.getD (month - 1) 0

/-- A check digit, if there is one. -/
def mod11 (digits : Utf16Text) (weights : List ℕ) : Option ℕ :=
  let sum := (weights.mapIdx fun i w => w * digitValue digits i).sum
  if sum % 11 = 0 then some 0 else if sum % 11 = 1 then none else some (11 - sum % 11)

/-- The Luhn check. -/
def luhn (digits : Utf16Text) : Bool :=
  let values := digits.mapIdx fun i u =>
    if i % 2 = 0 then
      if 9 < (u - 48) * 2 then (u - 48) * 2 - 9 else (u - 48) * 2
    else u - 48
  values.sum % 10 == 0

/-- A Norwegian number: its date and both check digits. -/
def isValidNoFnr (digits : Utf16Text) : Bool :=
  let day := if 40 < twoDigits digits 0 then twoDigits digits 0 - 40 else twoDigits digits 0
  let month :=
    if 80 < twoDigits digits 2 then twoDigits digits 2 - 80
    else if 40 < twoDigits digits 2 then twoDigits digits 2 - 40
    else twoDigits digits 2
  isValidDate day month && mod11 digits noK1Weights == some (digitValue digits 9) &&
    mod11 digits noK2Weights == some (digitValue digits 10)

/-- A Swedish number of ten digits. -/
def isValidSePnr (digits : Utf16Text) : Bool :=
  let day := twoDigits digits 4
  isValidDate (if 60 < day then day - 60 else day) (twoDigits digits 2) && luhn digits

/-- A Danish number: its date only. -/
def isValidDkCpr (digits : Utf16Text) : Bool :=
  isValidDate (twoDigits digits 0) (twoDigits digits 2)

/-! ### Patterns -/

/-- A pattern `/(?<!\d)(\d{head})([separators]?)(\d{tail})(?!\d)/g`. -/
structure NumberPattern where
  head : ℕ
  separators : List ℕ
  tail : ℕ
  deriving DecidableEq

/-- Six digits and five. -/
def patternNo : NumberPattern := ⟨6, [0x20, 0x2d], 5⟩

/-- Six digits and four. -/
def patternShort : NumberPattern := ⟨6, [0x2d, 0x2b], 4⟩

/-- Eight digits and four. -/
def patternLong : NumberPattern := ⟨8, [0x2d, 0x2b], 4⟩

/-- A unit that `\d` matches. -/
def isDigit (u : ℕ) : Bool := 0x30 ≤ u && u ≤ 0x39

/-- Whether a digit stands at a position. -/
def digitAt (text : Utf16Text) (i : ℕ) : Bool := isDigit (unitAt text i)

/-- The pattern matches at `start`, with `gap` separators between the two runs. -/
structure IsHit (p : NumberPattern) (text : Utf16Text) (start gap : ℕ) : Prop where
  before : start = 0 ∨ digitAt text (start - 1) = false
  head : ∀ k < p.head, digitAt text (start + k) = true
  separator : gap = 0 ∨ gap = 1 ∧ unitAt text (start + p.head) ∈ p.separators
  tail : ∀ k < p.tail, digitAt text (start + p.head + gap + k) = true
  after : digitAt text (start + p.head + gap + p.tail) = false

instance (p : NumberPattern) (text : Utf16Text) (start gap : ℕ) :
    Decidable (IsHit p text start gap) :=
  decidable_of_iff
    ((start = 0 ∨ digitAt text (start - 1) = false) ∧
      (∀ k < p.head, digitAt text (start + k) = true) ∧
      (gap = 0 ∨ gap = 1 ∧ unitAt text (start + p.head) ∈ p.separators) ∧
      (∀ k < p.tail, digitAt text (start + p.head + gap + k) = true) ∧
      digitAt text (start + p.head + gap + p.tail) = false)
    ⟨fun ⟨h, h', h'', h''', h''''⟩ => ⟨h, h', h'', h''', h''''⟩,
      fun h => ⟨h.before, h.head, h.separator, h.tail, h.after⟩⟩

/-- How long a match is. -/
def NumberPattern.length (p : NumberPattern) (gap : ℕ) : ℕ := p.head + gap + p.tail

/-- The match of a pattern at a position: the separator is tried first. -/
def matchAt (p : NumberPattern) (text : Utf16Text) (start : ℕ) : Option ℕ :=
  [1, 0].find? fun gap => decide (IsHit p text start gap)

/-- The matches from a position on, each search going on behind the match before. -/
def matchAllFrom (p : NumberPattern) (text : Utf16Text) : ℕ → ℕ → List (ℕ × ℕ)
  | 0, _ => []
  | fuel + 1, i =>
    match matchAt p text i with
    | none => matchAllFrom p text fuel (i + 1)
    | some gap => (i, gap) :: matchAllFrom p text fuel (i + p.length gap)

/-- `text.matchAll(pattern)`: where each match begins, and how many separators it has. -/
def matchAll (p : NumberPattern) (text : Utf16Text) : List (ℕ × ℕ) :=
  matchAllFrom p text text.length 0

/-- The digits of a match. -/
def hitDigits (p : NumberPattern) (text : Utf16Text) (hit : ℕ × ℕ) : Utf16Text :=
  sliceUnits text hit.1 (hit.1 + p.head) ++
    sliceUnits text (hit.1 + p.head + hit.2) (hit.1 + p.length hit.2)

/-- The separator of a match. -/
def hitSeparator (p : NumberPattern) (text : Utf16Text) (hit : ℕ × ℕ) : Utf16Text :=
  sliceUnits text (hit.1 + p.head) (hit.1 + p.head + hit.2)

/-! ### The search -/

/-- `CONFIDENCE_RANK`. -/
def confidenceRank : NationalIdConfidence → ℕ
  | .high => 2
  | .medium => 1

/-- The candidate that a match makes. -/
def candidateOf (p : NumberPattern) (text : Utf16Text) (detector : NationalIdDetector)
    (confidence : NationalIdConfidence) (hit : ℕ × ℕ) : Candidate :=
  ⟨⟨detector, confidence, hit.1, hit.1 + p.length hit.2⟩, hitDigits p text hit⟩

/-- What the Norwegian detector finds. -/
def noCandidates (text : Utf16Text) : List Candidate :=
  ((matchAll patternNo text).filter fun hit => isValidNoFnr (hitDigits patternNo text hit)).map
    (candidateOf patternNo text .noFnr .high)

/-- What the Swedish one finds with the century. -/
def seLongCandidates (text : Utf16Text) : List Candidate :=
  ((matchAll patternLong text).filter fun hit =>
    isValidSePnr ((hitDigits patternLong text hit).drop 2)).map
    (candidateOf patternLong text .sePnr .high)

/-- What it finds without. -/
def seShortCandidates (text : Utf16Text) : List Candidate :=
  ((matchAll patternShort text).filter fun hit =>
    isValidSePnr (hitDigits patternShort text hit)).map fun hit =>
    candidateOf patternShort text .sePnr
      (if hitSeparator patternShort text hit ≠ [] then .high else .medium) hit

/-- What the Danish one finds. -/
def dkCandidates (text : Utf16Text) : List Candidate :=
  ((matchAll patternShort text).filter fun hit =>
    isValidDkCpr (hitDigits patternShort text hit)).map fun hit =>
    candidateOf patternShort text .dkCpr
      (if hitSeparator patternShort text hit = [0x2d] then .high else .medium) hit

/-- What the detectors find, in the order in which they are asked. -/
def candidates (text : Utf16Text) (detectors : List NationalIdDetector) : List Candidate :=
  (if .noFnr ∈ detectors then noCandidates text else []) ++
    (if .sePnr ∈ detectors then seLongCandidates text ++ seShortCandidates text else []) ++
    if .dkCpr ∈ detectors then dkCandidates text else []

/-- `priority.get(detector) ?? 0`: the last index of the detector. -/
def priority (detectors : List NationalIdDetector) (detector : NationalIdDetector) : ℕ :=
  ((detectors.zipIdx.filter fun entry => entry.1 = detector).getLast?.map Prod.snd).getD 0

/-- The order of the ranking; zero says that the two are left as they came. -/
def compareCandidates (detectors : List NationalIdDetector) (a b : Candidate) : ℤ :=
  if a.start ≠ b.start then (a.start : ℤ) - b.start
  else if (confidenceRank b.confidence : ℤ) - confidenceRank a.confidence ≠ 0 then
    (confidenceRank b.confidence : ℤ) - confidenceRank a.confidence
  else if (priority detectors a.detector : ℤ) - priority detectors b.detector ≠ 0 then
    (priority detectors a.detector : ℤ) - priority detectors b.detector
  else (b.stop : ℤ) - a.stop

/-- The loop begins with `lastEnd` before every start, as zero is. -/
def resolveOverlaps (found : List Candidate) (detectors : List NationalIdDetector) :
    List NationalIdMatch :=
  let ranked := found.mergeSort fun a b => compareCandidates detectors a b ≤ 0
  (takeDisjoint (fun c => c.start) (fun c => c.stop) 0 ranked).map Candidate.toNationalIdMatch

/-- `findNationalIds`. -/
def findNationalIds (text : Utf16Text) (detectors : List NationalIdDetector)
    (minConfidence : NationalIdConfidence) : List NationalIdMatch :=
  if text = [] ∨ detectors = [] then []
  else
    resolveOverlaps
      ((candidates text detectors).filter fun c =>
        confidenceRank minConfidence ≤ confidenceRank c.confidence)
      detectors

/-! ### Redaction -/

/-- What stands for a number that was taken out. -/
def removalMarker : NationalIdDetector → Utf16Text
  | .noFnr => utf16 "[fødselsnummer fjernet]"
  | .sePnr => utf16 "[personnummer borttaget]"
  | .dkCpr => utf16 "[CPR-nummer fjernet]"

/-- What a number is replaced by. -/
def replacementFor (original : Utf16Text) (detector : NationalIdDetector) :
    RedactionMode → Utf16Text
  | .remove => removalMarker detector
  | .mask =>
    let digits := original.filter isDigit
    match detector with
    | .noFnr => digits.take 6 ++ utf16 "*****"
    | _ => digits.take (digits.length - 4) ++ utf16 "-****"

/-- The loop of `redactNationalIds` from its cursor on. -/
def redactFrom (text : Utf16Text) (mode : RedactionMode) : ℕ → List NationalIdMatch → Utf16Text
  | cursor, [] => text.drop cursor
  | cursor, m :: rest =>
    if m.start < cursor then redactFrom text mode cursor rest
    else
      sliceUnits text cursor m.start ++
        replacementFor (sliceUnits text m.start m.stop) m.detector mode ++
        redactFrom text mode m.stop rest

/-- `redactNationalIds`. -/
def redactNationalIds (text : Utf16Text) (found : List NationalIdMatch) (mode : RedactionMode) :
    Utf16Text :=
  if found = [] then text
  else redactFrom text mode 0 (found.mergeSort fun a b => a.start ≤ b.start)

/-! ### Digits of a text -/

variable {text : Utf16Text} {i k start stop cursor gap : ℕ} {p : NumberPattern} {c : Candidate}
  {detectors : List NationalIdDetector} {found : List NationalIdMatch}

theorem digitAt_of_length_le (hi : text.length ≤ i) : digitAt text i = false := by
  rw [digitAt, unitAt_of_length_le hi]
  rfl

theorem lt_length_of_digitAt (h : digitAt text i = true) : i < text.length := by
  by_contra hi
  rw [digitAt_of_length_le (Nat.not_lt.1 hi)] at h
  cases h

theorem digitAt_append_left {a : Utf16Text} (hk : k < a.length) (b : Utf16Text) :
    digitAt (a ++ b) k = digitAt a k := by
  rw [digitAt, unitAt_append_left hk, digitAt]

theorem digitAt_append_right (a b : Utf16Text) (k : ℕ) :
    digitAt (a ++ b) (a.length + k) = digitAt b k := by
  rw [digitAt, unitAt_append_right (Nat.le_add_right _ _), Nat.add_sub_cancel_left, digitAt]

theorem digitAt_sliceUnits (text : Utf16Text) {j : ℕ} (hk : k < j - i) :
    digitAt (sliceUnits text i j) k = digitAt text (i + k) := by
  rw [digitAt, unitAt_sliceUnits text hk, digitAt]

theorem digitAt_of_isDigit {b : Bool} (h : ∀ u ∈ text, isDigit u = b)
    (hk : k < text.length) : digitAt text k = b := by
  rw [digitAt, unitAt_eq_getElem hk]
  exact h _ (List.getElem_mem hk)

/-! ### Matches -/

/-- The patterns. -/
def patterns : List NumberPattern := [patternNo, patternShort, patternLong]

/-- What tells the patterns apart: the lengths of their runs. -/
theorem patterns_apart : ∀ p ∈ patterns, ∀ q ∈ patterns,
    0 < p.tail ∧ p.tail < 6 ∧ 6 ≤ p.head ∧ p.head ≠ q.head + q.tail ∧
      (p.head + p.tail = q.head + q.tail → p = q) ∧
      (p.head = q.head → p.tail = q.tail → p = q) := by
  decide

theorem separators_not_digits : ∀ p ∈ patterns, ∀ u ∈ p.separators, isDigit u = false := by
  decide

section Hits

variable {p q : NumberPattern} {text : Utf16Text} {i j gap gap' : ℕ}

theorem IsHit.gap_le (h : IsHit p text i gap) : gap ≤ 1 := by
  rcases h.separator with h | ⟨h, -⟩ <;> omega

/-- A unit of a match is a digit, or the separator. -/
theorem IsHit.digit_or_gap (h : IsHit p text i gap) {k : ℕ} (hk : k < p.length gap) :
    digitAt text (i + k) = true ∨ gap = 1 ∧ k = p.head := by
  have hgap := h.gap_le
  rw [NumberPattern.length] at hk
  by_cases hhead : k < p.head
  · exact .inl (h.head k hhead)
  · by_cases htail : p.head + gap ≤ k
    · have hdigit := h.tail (k - (p.head + gap)) (by omega)
      rw [(by omega : i + p.head + gap + (k - (p.head + gap)) = i + k)] at hdigit
      exact .inl hdigit
    · exact .inr ⟨by omega, by omega⟩

section Patterns

variable (hp : p ∈ patterns)

include hp

theorem IsHit.gap_not_digit (h : IsHit p text i gap) (hgap : gap = 1) :
    digitAt text (i + p.head) = false := by
  rcases h.separator with hzero | ⟨-, hmem⟩
  · omega
  · exact separators_not_digits p hp _ hmem

theorem IsHit.last_digit (h : IsHit p text i gap) :
    digitAt text (i + p.length gap - 1) = true := by
  obtain ⟨htail, -⟩ := patterns_apart p hp p hp
  have hdigit := h.tail (p.tail - 1) (by omega)
  rw [NumberPattern.length, (by omega : i + (p.head + gap + p.tail) - 1 =
    i + p.head + gap + (p.tail - 1))]
  exact hdigit

theorem IsHit.first_digit (h : IsHit p text i gap) :
    digitAt text i = true := by
  obtain ⟨-, -, hhead, -⟩ := patterns_apart p hp p hp
  exact h.head 0 (by omega)

theorem IsHit.length_pos : 0 < p.length gap := by
  obtain ⟨htail, -⟩ := patterns_apart p hp p hp
  rw [NumberPattern.length]
  omega

theorem IsHit.stop_le (h : IsHit p text i gap) :
    i + p.length gap ≤ text.length := by
  have hlt := lt_length_of_digitAt (h.last_digit hp)
  have hpos : 0 < p.length gap := IsHit.length_pos hp
  omega

omit hp in
theorem IsHit.stop_not_digit (h : IsHit p text i gap) :
    digitAt text (i + p.length gap) = false := by
  have hafter := h.after
  rw [Nat.add_assoc, Nat.add_assoc, ← Nat.add_assoc p.head] at hafter
  exact hafter

/-- A match does not begin within another one. -/
theorem IsHit.not_inside (hq : q ∈ patterns) (h : IsHit p text i gap)
    (h' : IsHit q text j gap') (hij : i < j) : i + p.length gap ≤ j := by
  obtain ⟨-, htail, -⟩ := patterns_apart p hp q hq
  obtain ⟨-, -, hhead, -⟩ := patterns_apart q hq p hp
  by_contra hlt
  have hbefore : digitAt text (i + (j - 1 - i)) = false := by
    rw [Nat.add_sub_cancel' (by omega)]
    exact h'.before.resolve_left (by omega)
  rcases h.digit_or_gap (by omega : j - 1 - i < p.length gap) with hdigit | ⟨hgap, heq⟩
  · rw [hbefore] at hdigit
    cases hdigit
  · -- it would begin with the second run, which is shorter than a first one
    have hdigit := h'.head p.tail (by omega)
    have hafter := h.after
    rw [(by omega : i + p.head + gap + p.tail = j + p.tail), hdigit] at hafter
    cases hafter

/-- The run of digits that a match begins with. -/
theorem IsHit.run (h : IsHit p text i gap) :
    (∀ k < p.head + (1 - gap) * p.tail, digitAt text (i + k) = true) ∧
      digitAt text (i + (p.head + (1 - gap) * p.tail)) = false := by
  rcases h.separator with rfl | ⟨rfl, -⟩
  · have hafter := h.after
    refine ⟨fun k hk => ?_, ?_⟩
    · rcases h.digit_or_gap (by rw [NumberPattern.length]; omega : k < p.length 0) with hk | hk
      · exact hk
      · omega
    · rw [Nat.sub_zero, Nat.one_mul, ← Nat.add_assoc]
      exact hafter
  · refine ⟨fun k hk => h.head k (by omega), ?_⟩
    rw [Nat.sub_self, Nat.zero_mul, Nat.add_zero]
    exact h.gap_not_digit hp rfl

/-- At one position at most one pattern matches, in one way. -/
theorem IsHit.unique (hq : q ∈ patterns) (h : IsHit p text i gap)
    (h' : IsHit q text i gap') : p = q ∧ gap = gap' := by
  obtain ⟨-, -, -, hmixed, hwhole, hparts⟩ := patterns_apart p hp q hq
  obtain ⟨-, -, -, hmixed', -⟩ := patterns_apart q hq p hp
  have hrun : p.head + (1 - gap) * p.tail = q.head + (1 - gap') * q.tail := by
    obtain ⟨hdigits, hend⟩ := h.run hp
    obtain ⟨hdigits', hend'⟩ := h'.run hq
    rcases Nat.lt_trichotomy (p.head + (1 - gap) * p.tail) (q.head + (1 - gap') * q.tail)
      with hlt | heq | hgt
    · rw [hdigits' _ hlt] at hend
      cases hend
    · exact heq
    · rw [hdigits _ hgt] at hend'
      cases hend'
  rcases h.separator with rfl | ⟨rfl, -⟩ <;> rcases h'.separator with rfl | ⟨rfl, -⟩
  · exact ⟨hwhole (by omega), rfl⟩
  · omega
  · omega
  · have hhead : p.head = q.head := by omega
    refine ⟨hparts hhead ?_, rfl⟩
    rcases Nat.lt_trichotomy p.tail q.tail with hlt | heq | hgt
    · have hdigit := h'.tail p.tail hlt
      rw [← hhead, h.after] at hdigit
      cases hdigit
    · exact heq
    · have hdigit := h.tail q.tail hgt
      rw [hhead, h'.after] at hdigit
      cases hdigit

/-- **Two matches are the same range or do not overlap**. -/
theorem IsHit.same_or_apart (hq : q ∈ patterns) (h : IsHit p text i gap)
    (h' : IsHit q text j gap') :
    i = j ∧ i + p.length gap = j + q.length gap' ∨ i + p.length gap ≤ j ∨
      j + q.length gap' ≤ i := by
  rcases Nat.lt_trichotomy i j with hlt | rfl | hgt
  · exact .inr (.inl (h.not_inside hp hq h' hlt))
  · obtain ⟨rfl, rfl⟩ := h.unique hp hq h'
    exact .inl ⟨rfl, rfl⟩
  · exact .inr (.inr (h'.not_inside hq hp h hgt))

theorem matchAt_eq_some_iff :
    matchAt p text i = some gap ↔ IsHit p text i gap := by
  refine ⟨fun h => of_decide_eq_true (List.find?_some (p := fun g => decide (IsHit p text i g)) h),
    fun h => ?_⟩
  have hmem : gap ∈ [1, 0] := by
    rcases h.separator with rfl | ⟨rfl, -⟩ <;> simp
  have hsome : (matchAt p text i).isSome = true := by
    rw [matchAt, List.find?_isSome]
    exact ⟨gap, hmem, decide_eq_true h⟩
  obtain ⟨gap', hgap'⟩ := Option.isSome_iff_exists.1 hsome
  have h' : IsHit p text i gap' :=
    of_decide_eq_true (List.find?_some (p := fun g => decide (IsHit p text i g)) hgap')
  rw [hgap', (h.unique hp hp h').2]

theorem mem_matchAllFrom {fuel start : ℕ} :
    (j, gap) ∈ matchAllFrom p text fuel start → IsHit p text j gap := by
  induction fuel generalizing start with
  | zero => exact fun h => absurd h List.not_mem_nil
  | succ fuel ih =>
    rw [matchAllFrom]
    split
    · exact ih
    · rename_i gap' hgap'
      rw [List.mem_cons, Prod.mk.injEq]
      rintro (⟨rfl, rfl⟩ | h)
      · exact (matchAt_eq_some_iff hp).1 hgap'
      · exact ih h

/-- A scan passes over no match, since none begins within another. -/
theorem mem_matchAllFrom_of_isHit {fuel start : ℕ} (h : IsHit p text j gap)
    (hstart : start ≤ j) (hfuel : j < start + fuel) :
    (j, gap) ∈ matchAllFrom p text fuel start := by
  induction fuel generalizing start with
  | zero => omega
  | succ fuel ih =>
    rw [matchAllFrom]
    rcases Nat.eq_or_lt_of_le hstart with rfl | hlt
    · rw [(matchAt_eq_some_iff hp).2 h]
      exact List.mem_cons_self
    · split
      · exact ih (by omega) (by omega)
      · rename_i gap' hgap'
        have hhit := (matchAt_eq_some_iff hp).1 hgap'
        have hpos : 0 < p.length gap' := IsHit.length_pos hp
        exact List.mem_cons_of_mem _ (ih (hhit.not_inside hp hp h hlt) (by omega))

/-- **The scan finds the matches**. -/
theorem mem_matchAll_iff :
    (j, gap) ∈ matchAll p text ↔ IsHit p text j gap := by
  refine ⟨mem_matchAllFrom hp, fun h => mem_matchAllFrom_of_isHit hp h (Nat.zero_le j) ?_⟩
  have hstop := h.stop_le hp
  have hpos : 0 < p.length gap := IsHit.length_pos hp
  omega

end Patterns

end Hits

/-! ### Candidates -/

/-- A match that a detector takes for an id, by its separator and its digits. -/
inductive Reads (separator digits : Utf16Text) :
    NumberPattern → NationalIdDetector → NationalIdConfidence → Prop
  | noFnr (h : isValidNoFnr digits = true) : Reads separator digits patternNo .noFnr .high
  | seLong (h : isValidSePnr (digits.drop 2) = true) :
      Reads separator digits patternLong .sePnr .high
  | seShort (h : isValidSePnr digits = true) :
      Reads separator digits patternShort .sePnr (if separator ≠ [] then .high else .medium)
  | dkCpr (h : isValidDkCpr digits = true) :
      Reads separator digits patternShort .dkCpr (if separator = [0x2d] then .high else .medium)

theorem Reads.pattern {separator digits : Utf16Text}
    {detector : NationalIdDetector} {confidence : NationalIdConfidence}
    (h : Reads separator digits p detector confidence) : p ∈ patterns := by
  cases h <;> decide

theorem mem_noCandidates : c ∈ noCandidates text ↔ ∃ i gap, IsHit patternNo text i gap ∧
      isValidNoFnr (hitDigits patternNo text (i, gap)) = true ∧
      candidateOf patternNo text .noFnr .high (i, gap) = c := by
  simp only [noCandidates, List.mem_map, List.mem_filter, Prod.exists,
    mem_matchAll_iff (p := patternNo) (by decide), and_assoc]

theorem mem_seLongCandidates : c ∈ seLongCandidates text ↔ ∃ i gap, IsHit patternLong text i gap ∧
      isValidSePnr ((hitDigits patternLong text (i, gap)).drop 2) = true ∧
      candidateOf patternLong text .sePnr .high (i, gap) = c := by
  simp only [seLongCandidates, List.mem_map, List.mem_filter, Prod.exists,
    mem_matchAll_iff (p := patternLong) (by decide), and_assoc]

theorem mem_seShortCandidates :
    c ∈ seShortCandidates text ↔ ∃ i gap, IsHit patternShort text i gap ∧
      isValidSePnr (hitDigits patternShort text (i, gap)) = true ∧
      candidateOf patternShort text .sePnr
        (if hitSeparator patternShort text (i, gap) ≠ [] then .high else .medium) (i, gap) = c := by
  simp only [seShortCandidates, List.mem_map, List.mem_filter, Prod.exists,
    mem_matchAll_iff (p := patternShort) (by decide), and_assoc]

theorem mem_dkCandidates : c ∈ dkCandidates text ↔ ∃ i gap, IsHit patternShort text i gap ∧
      isValidDkCpr (hitDigits patternShort text (i, gap)) = true ∧
      candidateOf patternShort text .dkCpr
        (if hitSeparator patternShort text (i, gap) = [0x2d] then .high else .medium)
        (i, gap) = c := by
  simp only [dkCandidates, List.mem_map, List.mem_filter, Prod.exists,
    mem_matchAll_iff (p := patternShort) (by decide), and_assoc]

/-- **The candidates are the matches that an enabled detector takes for ids**. -/
theorem mem_candidates_iff :
    c ∈ candidates text detectors ↔ ∃ p detector confidence i gap, detector ∈ detectors ∧
      IsHit p text i gap ∧
      Reads (hitSeparator p text (i, gap)) (hitDigits p text (i, gap)) p detector confidence ∧
      candidateOf p text detector confidence (i, gap) = c := by
  simp only [candidates, List.mem_append, List.mem_ite_nil_right, mem_noCandidates,
    mem_seLongCandidates, mem_seShortCandidates, mem_dkCandidates]
  constructor
  · rintro ((⟨hmem, i, gap, hhit, hvalid, rfl⟩ | ⟨hmem, ⟨i, gap, hhit, hvalid, rfl⟩ |
      ⟨i, gap, hhit, hvalid, rfl⟩⟩) | ⟨hmem, i, gap, hhit, hvalid, rfl⟩)
    · exact ⟨_, _, _, i, gap, hmem, hhit, .noFnr hvalid, rfl⟩
    · exact ⟨_, _, _, i, gap, hmem, hhit, .seLong hvalid, rfl⟩
    · exact ⟨_, _, _, i, gap, hmem, hhit, .seShort hvalid, rfl⟩
    · exact ⟨_, _, _, i, gap, hmem, hhit, .dkCpr hvalid, rfl⟩
  · rintro ⟨p, detector, confidence, i, gap, hmem, hhit, hreads, rfl⟩
    generalize hsep : hitSeparator p text (i, gap) = separator at hreads
    generalize hdigits : hitDigits p text (i, gap) = digits at hreads
    cases hreads with
    | noFnr h => exact .inl (.inl ⟨hmem, i, gap, hhit, hdigits ▸ h, rfl⟩)
    | seLong h => exact .inl (.inr ⟨hmem, .inl ⟨i, gap, hhit, hdigits ▸ h, rfl⟩⟩)
    | seShort h => exact .inl (.inr ⟨hmem, .inr ⟨i, gap, hhit, hdigits ▸ h, by rw [hsep]⟩⟩)
    | dkCpr h => exact .inr ⟨hmem, i, gap, hhit, hdigits ▸ h, by rw [hsep]⟩

/-- A range that a pattern matches. -/
def IsHitRange (text : Utf16Text) (start stop : ℕ) : Prop :=
  ∃ p ∈ patterns, ∃ gap, IsHit p text start gap ∧ stop = start + p.length gap

theorem IsHitRange.lt (h : IsHitRange text start stop) : start < stop := by
  obtain ⟨p, hp, gap, -, rfl⟩ := h
  have hpos : 0 < p.length gap := IsHit.length_pos hp
  omega

theorem IsHitRange.same_or_apart {start' stop' : ℕ}
    (h : IsHitRange text start stop) (h' : IsHitRange text start' stop') :
    start = start' ∧ stop = stop' ∨ stop ≤ start' ∨ stop' ≤ start := by
  obtain ⟨p, hp, gap, hhit, rfl⟩ := h
  obtain ⟨q, hq, gap', hhit', rfl⟩ := h'
  exact hhit.same_or_apart hp hq hhit'

theorem isHitRange_of_mem_candidates (h : c ∈ candidates text detectors) : IsHitRange text c.start
    c.stop := by
  obtain ⟨p, detector, confidence, i, gap, -, hhit, hreads, rfl⟩ := mem_candidates_iff.1 h
  exact ⟨p, hreads.pattern, gap, hhit, rfl⟩

/-! ### The ranking -/

/-- The ranking is lexicographic: by the start, the confidence, the detector and the length. -/
theorem compareCandidates_nonpos_iff (detectors : List NationalIdDetector) (a b : Candidate) :
    compareCandidates detectors a b ≤ 0 ↔
      a.start < b.start ∨ a.start = b.start ∧
        (confidenceRank b.confidence < confidenceRank a.confidence ∨
          confidenceRank b.confidence = confidenceRank a.confidence ∧
          (priority detectors a.detector < priority detectors b.detector ∨
            priority detectors a.detector = priority detectors b.detector ∧ b.stop ≤ a.stop)) := by
  unfold compareCandidates
  split_ifs <;> omega

section Ranking

variable (detectors : List NationalIdDetector) (found : List Candidate)

/-- The candidates in the order of the ranking. -/
def ranked : List Candidate := found.mergeSort fun a b => compareCandidates detectors a b ≤ 0

theorem mem_ranked {c : Candidate} : c ∈ ranked detectors found ↔ c ∈ found := List.mem_mergeSort

theorem ranked_sorted : (ranked detectors found).Pairwise fun a b => a.start ≤ b.start := by
  have hsorted : (ranked detectors found).Pairwise fun a b =>
      decide (compareCandidates detectors a b ≤ 0) = true := by
    refine List.pairwise_mergeSort (fun a b c hab hbc => ?_) (fun a b => ?_) found
    · rw [decide_eq_true_eq, compareCandidates_nonpos_iff] at *
      omega
    · rw [Bool.or_eq_true, decide_eq_true_eq, decide_eq_true_eq, compareCandidates_nonpos_iff,
        compareCandidates_nonpos_iff]
      omega
  refine hsorted.imp fun {a b} hab => ?_
  rw [decide_eq_true_eq, compareCandidates_nonpos_iff] at hab
  omega

end Ranking

section Found

variable (text : Utf16Text) (detectors : List NationalIdDetector)
  (minConfidence : NationalIdConfidence)

/-- The candidates of at least the confidence that is asked for. -/
def confident : List Candidate :=
  (candidates text detectors).filter fun c =>
    confidenceRank minConfidence ≤ confidenceRank c.confidence

theorem candidates_of_nothing (h : text = [] ∨ detectors = []) :
    candidates text detectors = [] := by
  refine List.eq_nil_iff_forall_not_mem.2 fun c hc => ?_
  obtain ⟨p, detector, confidence, i, gap, hmem, hhit, hreads, -⟩ := mem_candidates_iff.1 hc
  rcases h with rfl | rfl
  · have hlt := lt_length_of_digitAt (hhit.first_digit hreads.pattern)
    rw [List.length_nil] at hlt
    omega
  · exact List.not_mem_nil hmem

theorem findNationalIds_eq : findNationalIds text detectors minConfidence =
    (takeDisjoint (fun c => c.start) (fun c => c.stop) 0
      (ranked detectors (confident text detectors minConfidence))).map
        Candidate.toNationalIdMatch := by
  rw [findNationalIds]
  split_ifs with h
  · rw [confident, candidates_of_nothing text detectors h, List.filter_nil, ranked,
      List.mergeSort_nil]
    rfl
  · rfl

theorem isHitRange_of_mem_ranked {c : Candidate}
    (h : c ∈ ranked detectors (confident text detectors minConfidence)) :
    IsHitRange text c.start c.stop :=
  isHitRange_of_mem_candidates (List.mem_filter.1 ((mem_ranked _ _).1 h)).1

/-- **The ids found are one behind the other**. -/
theorem findNationalIds_pairwise :
    (findNationalIds text detectors minConfidence).Pairwise fun a b => a.stop ≤ b.start := by
  rw [findNationalIds_eq, List.pairwise_map]
  exact takeDisjoint_pairwise 0 fun c hc =>
    Nat.le_of_lt (isHitRange_of_mem_ranked text detectors minConfidence hc).lt

theorem isHitRange_of_mem_found {m : NationalIdMatch}
    (h : m ∈ findNationalIds text detectors minConfidence) : IsHitRange text m.start m.stop := by
  rw [findNationalIds_eq, List.mem_map] at h
  obtain ⟨c, hc, rfl⟩ := h
  exact isHitRange_of_mem_ranked text detectors minConfidence ((takeDisjoint_sublist 0 _).subset hc)

/-- **The range of each candidate is found**. -/
theorem exists_found {c : Candidate} (h : c ∈ confident text detectors minConfidence) :
    ∃ m ∈ findNationalIds text detectors minConfidence, m.start = c.start ∧ m.stop = c.stop := by
  have hrange := fun d hd => isHitRange_of_mem_ranked text detectors minConfidence (c := d) hd
  obtain ⟨d, hd, heq⟩ : ∃ d ∈ takeDisjoint (fun c : Candidate => c.start) (fun c => c.stop) 0
      (ranked detectors (confident text detectors minConfidence)),
      d.start = c.start ∧ d.stop = c.stop :=
    exists_mem_takeDisjoint (fun d hd => (hrange d hd).lt) (ranked_sorted detectors _)
      (fun d hd e he => (hrange d hd).same_or_apart (hrange e he))
      ((mem_ranked detectors _).2 h) (Nat.zero_le _)
  rw [findNationalIds_eq]
  exact ⟨d.toNationalIdMatch, List.mem_map_of_mem hd, heq⟩

end Found

/-! ### Redaction is local -/

/-- A text from position `cursor` on with some ranges of it replaced, one behind the other, and
the rest as it is. -/
inductive Rewritten (text : Utf16Text) (replace : NationalIdMatch → Utf16Text) :
    ℕ → List NationalIdMatch → Utf16Text → Prop
  | done (cursor : ℕ) : Rewritten text replace cursor [] (text.drop cursor)
  | step {cursor : ℕ} {m : NationalIdMatch} {rest : List NationalIdMatch} {out : Utf16Text}
      (hstart : cursor ≤ m.start) (hrange : m.start < m.stop) (hstop : m.stop ≤ text.length)
      (h : Rewritten text replace m.stop rest out) :
      Rewritten text replace cursor (m :: rest) (sliceUnits text cursor m.start ++ replace m ++ out)

/-- What a match of a text is replaced by. -/
def replacementOf (text : Utf16Text) (mode : RedactionMode) (m : NationalIdMatch) : Utf16Text :=
  replacementFor (sliceUnits text m.start m.stop) m.detector mode

theorem IsHitRange.stop_le (h : IsHitRange text start stop) : stop ≤ text.length := by
  obtain ⟨p, hp, gap, hhit, rfl⟩ := h
  exact hhit.stop_le hp

theorem rewritten_redactFrom (mode : RedactionMode)
    (hranges : ∀ m ∈ found, IsHitRange text m.start m.stop)
    (hpairwise : found.Pairwise fun a b => a.stop ≤ b.start)
    (hcursor : ∀ m ∈ found, cursor ≤ m.start) :
    Rewritten text (replacementOf text mode) cursor found (redactFrom text mode cursor found) := by
  induction found generalizing cursor with
  | nil => exact .done cursor
  | cons m rest ih =>
    rw [List.pairwise_cons] at hpairwise
    have hm := hranges m List.mem_cons_self
    have hle := hcursor m List.mem_cons_self
    rw [redactFrom, if_neg (Nat.not_lt.2 hle)]
    exact .step hle hm.lt hm.stop_le
      (ih (fun m' hm' => hranges m' (List.mem_cons_of_mem m hm')) hpairwise.2 hpairwise.1)

/-- Sorting leaves ranges as they are that stand one behind the other. -/
theorem redactNationalIds_eq (mode : RedactionMode)
    (hranges : ∀ m ∈ found, IsHitRange text m.start m.stop)
    (hpairwise : found.Pairwise fun a b => a.stop ≤ b.start) :
    redactNationalIds text found mode = redactFrom text mode 0 found := by
  have hsorted : found.Pairwise fun a b => decide (a.start ≤ b.start) = true := by
    refine List.Pairwise.imp_of_mem (fun {a b} ha _ hab => ?_) hpairwise
    have hlt := (hranges a ha).lt
    exact decide_eq_true (by omega)
  rw [redactNationalIds, List.mergeSort_of_pairwise hsorted]
  split_ifs with hnil
  · rw [hnil, redactFrom, List.drop_zero]
  · rfl

/-! ### Redaction is complete -/

/-- A replacement in which no match can have a part: at most eight digits, and more that are no
digits. -/
structure Inert (replacement : Utf16Text) (kept : ℕ) : Prop where
  kept_le : kept = 0 ∨ 6 ≤ kept ∧ kept ≤ 8
  kept_lt : kept < replacement.length
  digits : ∀ k < kept, digitAt replacement k = true
  rest : ∀ k, kept ≤ k → digitAt replacement k = false

theorem inert_append {digits rest : Utf16Text}
    (hlength : digits.length = 0 ∨ 6 ≤ digits.length ∧ digits.length ≤ 8) (hrest : rest ≠ [])
    (hdigits : ∀ u ∈ digits, isDigit u = true) (hothers : ∀ u ∈ rest, isDigit u = false) :
    Inert (digits ++ rest) digits.length where
  kept_le := hlength
  kept_lt := by
    rw [List.length_append]
    exact Nat.lt_add_of_pos_right (List.length_pos_iff.2 hrest)
  digits k hk := by
    rw [digitAt_append_left hk]
    exact digitAt_of_isDigit hdigits hk
  rest k hk := by
    rw [← Nat.add_sub_cancel' hk, digitAt_append_right]
    by_cases hlt : k - digits.length < rest.length
    · exact digitAt_of_isDigit hothers hlt
    · exact digitAt_of_length_le (Nat.not_lt.1 hlt)

theorem sliceUnits_append (text : Utf16Text) {j : ℕ} (hij : i ≤ j) (hjk : j ≤ k) :
    sliceUnits text i j ++ sliceUnits text j k = sliceUnits text i k := by
  have hdrop : text.drop j = (text.drop i).drop (j - i) := by
    rw [List.drop_drop, Nat.add_sub_cancel' hij]
  rw [sliceUnits, sliceUnits, sliceUnits, hdrop, ← List.take_add,
    (by omega : j - i + (k - j) = k - i)]

theorem isDigit_of_mem_slice {n : ℕ} {b : Bool}
    (h : ∀ k < n, digitAt text (i + k) = b) (hn : i + n ≤ text.length) :
    ∀ u ∈ sliceUnits text i (i + n), isDigit u = b := by
  intro u hu
  obtain ⟨k, hk, rfl⟩ := List.getElem_of_mem hu
  have hlt := hk
  rw [length_sliceUnits hn, Nat.add_sub_cancel_left] at hlt
  rw [← h k hlt, ← unitAt_eq_getElem hk, unitAt_sliceUnits text (by omega), digitAt]

/-- The digits of a match. -/
theorem length_filter_digits (hp : p ∈ patterns) (h : IsHit p text i gap) :
    ((sliceUnits text i (i + p.length gap)).filter isDigit).length = p.head + p.tail := by
  have hstop := h.stop_le hp
  rw [NumberPattern.length] at hstop
  have hhead := isDigit_of_mem_slice h.head (by omega)
  have htail := isDigit_of_mem_slice h.tail (by omega)
  have hgap : ∀ k < gap, digitAt text (i + p.head + k) = false := by
    intro k hk
    have hle := h.gap_le
    rw [(by omega : k = 0), Nat.add_zero]
    exact h.gap_not_digit hp (by omega)
  have hseparator := isDigit_of_mem_slice hgap (by omega)
  rw [NumberPattern.length, ← Nat.add_assoc, ← Nat.add_assoc,
    ← sliceUnits_append text (by omega : i ≤ i + p.head + gap) (by omega),
    ← sliceUnits_append text (by omega : i ≤ i + p.head) (by omega), List.filter_append,
    List.filter_append, List.filter_eq_self.2 hhead, List.filter_eq_self.2 htail,
    List.filter_eq_nil_iff.2 fun u hu => by rw [hseparator u hu]; exact Bool.false_ne_true,
    List.append_nil, List.length_append, length_sliceUnits (by omega),
    length_sliceUnits (by omega)]
  omega

theorem patterns_length : ∀ p ∈ patterns, 10 ≤ p.head + p.tail ∧ p.head + p.tail ≤ 12 := by
  decide

theorem removalMarker_spec (detector : NationalIdDetector) :
    removalMarker detector ≠ [] ∧ ∀ u ∈ removalMarker detector, isDigit u = false := by
  cases detector <;> decide

theorem exists_inert {m : NationalIdMatch}
    (h : IsHitRange text m.start m.stop) (mode : RedactionMode) :
    ∃ kept, Inert (replacementOf text mode m) kept := by
  obtain ⟨p, hp, gap, hhit, hstop⟩ := h
  rw [replacementOf]
  cases mode with
  | remove =>
    obtain ⟨hne, hothers⟩ := removalMarker_spec m.detector
    exact ⟨0, inert_append (.inl rfl : ([] : Utf16Text).length = 0 ∨ _) hne (by simp) hothers⟩
  | mask =>
    have hlength := length_filter_digits hp hhit
    have hbounds := patterns_length p hp
    rw [← hstop] at hlength
    have hdigits (n : ℕ) :
        ∀ u ∈ ((sliceUnits text m.start m.stop).filter isDigit).take n, isDigit u = true :=
      fun u hu => (List.mem_filter.1 (List.mem_of_mem_take hu)).2
    cases hdetector : m.detector
    · refine ⟨_, inert_append (.inr ?_) (by decide) (hdigits 6) (by decide)⟩
      rw [List.length_take, hlength]
      omega
    all_goals
      refine ⟨_, inert_append (.inr ?_) (by decide) (hdigits _) (by decide)⟩
      rw [List.length_take, hlength]
      omega

/-- **A match lies before an inert replacement or behind it**. -/
theorem IsHit.before_or_behind (hp : p ∈ patterns)
    {before replacement behind : Utf16Text} {kept : ℕ}
    (h : IsHit p (before ++ replacement ++ behind) i gap) (hinert : Inert replacement kept)
    (hbefore : before.length = 0 ∨ digitAt before (before.length - 1) = false)
    (hbehind : digitAt behind 0 = false) :
    i + p.length gap ≤ before.length ∨ before.length + replacement.length ≤ i := by
  obtain ⟨htail, htail', hhead, -⟩ := patterns_apart p hp p hp
  obtain ⟨hlength, -⟩ := patterns_length p hp
  have hkept := hinert.kept_le
  have hkept' := hinert.kept_lt
  have hgap := h.gap_le
  set text := before ++ replacement ++ behind with htext
  have hunit (k : ℕ) (hk : k < replacement.length) :
      digitAt text (before.length + k) = digitAt replacement k := by
    rw [htext, List.append_assoc, digitAt_append_right, digitAt_append_left hk]
  have hdigits (k : ℕ) (hk : before.length ≤ k) (hk' : k < before.length + kept) :
      digitAt text k = true := by
    rw [← Nat.add_sub_cancel' hk, hunit _ (by omega)]
    exact hinert.digits _ (by omega)
  have hrest (k : ℕ) (hk : before.length + kept ≤ k)
      (hk' : k ≤ before.length + replacement.length) : digitAt text k = false := by
    by_cases hlt : k < before.length + replacement.length
    · rw [← Nat.add_sub_cancel' (by omega : before.length ≤ k), hunit _ (by omega)]
      exact hinert.rest _ (by omega)
    · have hk : k = (before ++ replacement).length + 0 := by
        rw [List.length_append]
        omega
      rw [hk, htext, digitAt_append_right]
      exact hbehind
  have hlast : before.length = 0 ∨ digitAt text (before.length - 1) = false := by
    rcases Nat.eq_zero_or_pos before.length with hzero | hpos
    · exact .inl hzero
    · rw [htext, List.append_assoc, digitAt_append_left (by omega)]
      exact .inr (hbefore.resolve_left (by omega))
  -- a unit of a match that is no digit has a digit behind it
  have houtside (k : ℕ) (hk : i ≤ k) (hk' : k < i + p.length gap) :
      digitAt text k = true ∨ digitAt text (k + 1) = true := by
    rcases h.digit_or_gap (by omega : k - i < p.length gap) with hdigit | ⟨hone, heq⟩
    · rw [Nat.add_sub_cancel' hk] at hdigit
      exact .inl hdigit
    · have hdigit := h.tail 0 htail
      rw [(by omega : i + p.head + gap + 0 = k + 1)] at hdigit
      exact .inr hdigit
  by_contra hnot
  rw [not_or, Nat.not_le, Nat.not_le] at hnot
  rw [NumberPattern.length] at *
  by_cases hshort : i + (p.head + gap + p.tail) ≤ before.length + kept
  · -- it ends with the digits that were kept, and these are too many for the second run of a
    -- match and too few for both
    have hafter := h.after
    have hend : i + p.head + gap + p.tail = before.length + kept := by
      by_contra hne
      rw [hdigits _ (by omega) (by omega)] at hafter
      cases hafter
    rcases h.separator with rfl | ⟨rfl, -⟩
    · have hdigit := (h.digit_or_gap (k := before.length - 1 - i)
        (by rw [NumberPattern.length]; omega)).resolve_right (by omega)
      rw [(by omega : i + (before.length - 1 - i) = before.length - 1),
        hlast.resolve_left (by omega)] at hdigit
      cases hdigit
    · have hdigit := h.gap_not_digit hp rfl
      rw [hdigits _ (by omega) (by omega)] at hdigit
      cases hdigit
  · -- then it has a unit behind the digits that were kept
    have hat := houtside (max i (before.length + kept)) (le_max_left _ _) (by omega)
    rw [hrest _ (le_max_right _ _) (by omega), hrest _ (by omega) (by omega)] at hat
    exact hat.elim Bool.false_ne_true Bool.false_ne_true

theorem sliceUnits_congr {text' : Utf16Text} {i' a b n : ℕ} (hi : i + n ≤ text.length)
    (hi' : i' + n ≤ text'.length) (h : ∀ k < n, unitAt text' (i' + k) = unitAt text (i + k))
    (hb : b ≤ n) : sliceUnits text' (i' + a) (i' + b) = sliceUnits text (i + a) (i + b) := by
  refine List.ext_getElem ?_ fun k hk hk' => ?_
  · rw [length_sliceUnits (by omega), length_sliceUnits (by omega)]
    omega
  · have hlt := hk
    rw [length_sliceUnits (by omega)] at hlt
    rw [← unitAt_eq_getElem hk, ← unitAt_eq_getElem hk', unitAt_sliceUnits text' (by omega),
      unitAt_sliceUnits text (by omega), Nat.add_assoc, Nat.add_assoc, h _ (by omega)]

/-- A match of one text is a match of another, with the same separator and digits. -/
structure SameHit (p : NumberPattern) (text' : Utf16Text) (i' : ℕ) (text : Utf16Text) (i gap : ℕ) :
    Prop where
  isHit : IsHit p text' i' gap
  separator : hitSeparator p text' (i', gap) = hitSeparator p text (i, gap)
  digits : hitDigits p text' (i', gap) = hitDigits p text (i, gap)

section Transfer

variable {p : NumberPattern} (hp : p ∈ patterns) {text text' : Utf16Text} {i i' gap : ℕ}
include hp

theorem IsHit.transfer (h : IsHit p text i gap)
    (hunits : ∀ k < p.length gap, unitAt text' (i' + k) = unitAt text (i + k))
    (hbefore : i' = 0 ∨ digitAt text' (i' - 1) = false)
    (hafter : digitAt text' (i' + p.length gap) = false) : SameHit p text' i' text i gap := by
  have hdigit (k : ℕ) (hk : k < p.length gap) : digitAt text' (i' + k) = digitAt text (i + k) := by
    rw [digitAt, hunits k hk, digitAt]
  have hit : IsHit p text' i' gap := by
    rw [NumberPattern.length] at *
    refine ⟨hbefore, fun k hk => ?_, ?_, fun k hk => ?_, ?_⟩
    · rw [hdigit k (by omega)]
      exact h.head k hk
    · refine h.separator.imp_right fun ⟨hone, hmem⟩ => ⟨hone, ?_⟩
      rw [hunits _ (by omega)]
      exact hmem
    · rw [Nat.add_assoc, Nat.add_assoc, ← Nat.add_assoc p.head, hdigit _ (by omega),
        ← Nat.add_assoc, ← Nat.add_assoc]
      exact h.tail k hk
    · rw [Nat.add_assoc, Nat.add_assoc, ← Nat.add_assoc p.head]
      exact hafter
  have hslice (a b : ℕ) (hb : b ≤ p.length gap) :
      sliceUnits text' (i' + a) (i' + b) = sliceUnits text (i + a) (i + b) :=
    sliceUnits_congr (h.stop_le hp) (hit.stop_le hp) hunits hb
  refine ⟨hit, ?_, ?_⟩
  · have hle : p.head + gap ≤ p.length gap := Nat.le_add_right _ _
    simp only [hitSeparator, Nat.add_assoc]
    exact hslice _ _ hle
  · have hle : p.head ≤ p.length gap := (Nat.le_add_right _ _).trans (Nat.le_add_right _ _)
    have hhead := hslice 0 p.head hle
    rw [Nat.add_zero, Nat.add_zero] at hhead
    simp only [hitDigits, Nat.add_assoc]
    rw [hhead, hslice _ _ le_rfl]

/-- A match in a copy of what stands behind a cursor. -/
theorem IsHit.of_copy {cursor n : ℕ} (h : IsHit p text' i gap)
    (hcopy : ∀ k < n, unitAt text' k = unitAt text (cursor + k)) (hn : i + p.length gap ≤ n)
    (hdigit : cursor = 0 ∨ digitAt text cursor = false)
    (hafter : digitAt text (cursor + i + p.length gap) = false) :
    SameHit p text (cursor + i) text' i gap := by
  have hpos : 0 < p.length gap := IsHit.length_pos hp
  refine h.transfer hp (fun k hk => ?_) ?_ hafter
  · rw [Nat.add_assoc, hcopy _ (by omega)]
  · rcases Nat.eq_zero_or_pos i with rfl | hi
    · have hfirst := h.first_digit hp
      rw [digitAt, hcopy 0 (by omega), Nat.add_zero, ← digitAt] at hfirst
      refine .inl (hdigit.resolve_right fun hfalse => ?_)
      rw [hfalse] at hfirst
      cases hfirst
    · have hbefore := h.before.resolve_left (by omega)
      rw [digitAt, hcopy _ (by omega), ← digitAt,
        (by omega : cursor + (i - 1) = cursor + i - 1)] at hbefore
      exact .inr hbefore

omit hp in
theorem SameHit.trans {text'' : Utf16Text} {i'' : ℕ} (h : SameHit p text'' i'' text' i' gap)
    (h' : SameHit p text' i' text i gap) : SameHit p text'' i'' text i gap :=
  ⟨h.isHit, h.separator.trans h'.separator, h.digits.trans h'.digits⟩

end Transfer

/-- What redaction writes from a cursor on begins with no digit if nothing but a redacted match
stands before. -/
theorem redactFrom_zero (mode : RedactionMode)
    (hranges : ∀ m ∈ found, IsHitRange text m.start m.stop)
    (hcursor : ∀ m ∈ found, cursor ≤ m.start) (hdigit : digitAt text cursor = false) :
    digitAt (redactFrom text mode cursor found) 0 = false := by
  cases found with
  | nil =>
    rw [redactFrom, digitAt, unitAt, List.getD_eq_getElem?_getD, List.getElem?_drop, Nat.add_zero,
      ← List.getD_eq_getElem?_getD]
    exact hdigit
  | cons m rest =>
    have hle := hcursor m List.mem_cons_self
    obtain ⟨p, hp, gap, hhit, hstop⟩ := hranges m List.mem_cons_self
    have hne : cursor ≠ m.start := by
      rintro rfl
      rw [hhit.first_digit hp] at hdigit
      cases hdigit
    have hlength := hhit.stop_le hp
    rw [redactFrom, if_neg (Nat.not_lt.2 hle), List.append_assoc, digitAt_append_left,
      digitAt_sliceUnits text (by omega)]
    · exact hdigit
    · rw [length_sliceUnits (by omega)]
      omega

/-- **A match of the redacted text is one of the text, outside of what was redacted**: by
induction on the matches that are redacted, each of which the text has no digit around. -/
theorem exists_sameHit_of_redactFrom (hp : p ∈ patterns) (mode : RedactionMode)
    (hranges : ∀ m ∈ found, IsHitRange text m.start m.stop)
    (hpairwise : found.Pairwise fun a b => a.stop ≤ b.start)
    (hcursor : ∀ m ∈ found, cursor ≤ m.start) (hdigit : cursor = 0 ∨ digitAt text cursor = false)
    (h : IsHit p (redactFrom text mode cursor found) i gap) :
    ∃ j, cursor ≤ j ∧ SameHit p text j (redactFrom text mode cursor found) i gap ∧
      ∀ m ∈ found, j + p.length gap ≤ m.start ∨ m.stop ≤ j := by
  induction found generalizing cursor i with
  | nil =>
    rw [redactFrom] at h ⊢
    have hunit (k : ℕ) : unitAt (text.drop cursor) k = unitAt text (cursor + k) := by
      rw [unitAt, unitAt, List.getD_eq_getElem?_getD, List.getD_eq_getElem?_getD,
        List.getElem?_drop]
    refine ⟨cursor + i, Nat.le_add_right _ _,
      h.of_copy hp (fun k _ => hunit k) le_rfl hdigit ?_, by simp⟩
    rw [digitAt, Nat.add_assoc, ← hunit]
    exact h.stop_not_digit
  | cons m rest ih =>
    have hm := hranges m List.mem_cons_self
    have hle := hcursor m List.mem_cons_self
    obtain ⟨q, hq, gap', hhit, hstop⟩ := hm
    obtain ⟨kept, hinert⟩ := exists_inert (hranges m List.mem_cons_self) mode
    rw [List.pairwise_cons] at hpairwise
    have hrest : ∀ m' ∈ rest, IsHitRange text m'.start m'.stop := fun m' hm' =>
      hranges m' (List.mem_cons_of_mem m hm')
    have hstop' : digitAt text m.stop = false := hstop ▸ hhit.stop_not_digit
    have hbehind := redactFrom_zero mode hrest hpairwise.1 hstop'
    have hlength := hhit.stop_le hq
    have hpos : 0 < p.length gap := IsHit.length_pos hp
    have hbound : m.start < m.stop := (hranges m List.mem_cons_self).lt
    rw [redactFrom, if_neg (Nat.not_lt.2 hle), ← replacementOf] at h ⊢
    set before := sliceUnits text cursor m.start with hslice
    set behind := redactFrom text mode m.stop rest
    have hn : before.length = m.start - cursor := length_sliceUnits (by omega)
    have hcopy : ∀ k < m.start - cursor,
        unitAt (before ++ replacementOf text mode m ++ behind) k = unitAt text (cursor + k) := by
      intro k hk
      rw [List.append_assoc, unitAt_append_left (by omega), hslice, unitAt_sliceUnits text hk]
    have hlast : m.start - cursor = 0 ∨ digitAt text (m.start - 1) = false :=
      hhit.before.imp_left fun hzero => by omega
    have hbefore : before.length = 0 ∨ digitAt before (before.length - 1) = false := by
      rw [hn]
      by_cases hzero : m.start - cursor = 0
      · exact .inl hzero
      · rw [hslice, digitAt_sliceUnits text (by omega),
          (by omega : cursor + (m.start - cursor - 1) = m.start - 1)]
        exact .inr (hlast.resolve_left hzero)
    rcases h.before_or_behind hp hinert hbefore hbehind with hleft | hright
    · refine ⟨cursor + i, Nat.le_add_right _ _, h.of_copy hp hcopy (hn ▸ hleft) hdigit ?_, ?_⟩
      · by_cases hlt : i + p.length gap < m.start - cursor
        · rw [digitAt, Nat.add_assoc, ← hcopy _ hlt]
          exact h.stop_not_digit
        · -- it would end where the match that is redacted begins
          have hdigit := h.last_digit hp
          rw [digitAt, hcopy _ (by omega), ← digitAt,
            (by omega : cursor + (i + p.length gap - 1) = m.start - 1),
            hlast.resolve_left (by omega)] at hdigit
          cases hdigit
      · intro m' hm'
        rcases List.mem_cons.1 hm' with rfl | hm'
        · exact .inl (by omega)
        · have hafter := hpairwise.1 m' hm'
          exact .inl (by omega)
    · set width := before.length + (replacementOf text mode m).length with hwidth
      have hunit (k : ℕ) : unitAt behind k =
          unitAt (before ++ replacementOf text mode m ++ behind) (width + k) := by
        rw [hwidth, ← List.length_append, unitAt_append_right (Nat.le_add_right _ _),
          Nat.add_sub_cancel_left]
      -- Behind the replacement it is a match of what follows, and the induction applies.
      have hsame : SameHit p behind (i - width)
          (before ++ replacementOf text mode m ++ behind) i gap := by
        refine h.transfer hp (fun k _ => ?_) ?_ ?_
        · rw [hunit, (by omega : width + (i - width + k) = i + k)]
        · rcases Nat.eq_or_lt_of_le hright with heq | hlt
          · exact .inl (by omega)
          · have hbefore := h.before.resolve_left (by omega)
            rw [digitAt, hunit, ← digitAt, (by omega : width + (i - width - 1) = i - 1)]
            exact .inr hbefore
        · rw [digitAt, hunit, ← digitAt, ← Nat.add_assoc, Nat.add_sub_cancel' hright]
          exact h.stop_not_digit
      obtain ⟨j, hj, hsame', hapart⟩ :=
        ih hrest hpairwise.2 hpairwise.1 (.inr hstop') hsame.isHit
      refine ⟨j, by omega, hsame'.trans hsame, fun m' hm' => ?_⟩
      rcases List.mem_cons.1 hm' with rfl | hm'
      · exact .inr hj
      · exact hapart m' hm'

/-! ### Redaction -/

section Redaction

variable (text : Utf16Text) (detectors : List NationalIdDetector)
  (minConfidence : NationalIdConfidence) (mode : RedactionMode)

/-- What detectors take for an id in a redacted text they have taken for one in the text. -/
theorem confident_redacted :
    confident (redactNationalIds text (findNationalIds text detectors minConfidence) mode)
      detectors minConfidence = [] := by
  have hranges := fun m hm => isHitRange_of_mem_found text detectors minConfidence (m := m) hm
  have hpairwise := findNationalIds_pairwise text detectors minConfidence
  refine List.eq_nil_iff_forall_not_mem.2 fun c hc => ?_
  rw [confident, List.mem_filter, redactNationalIds_eq mode hranges hpairwise] at hc
  obtain ⟨hmem, hconfident⟩ := hc
  obtain ⟨p, detector, confidence, i, gap, hdetector, hhit, hreads, rfl⟩ :=
    mem_candidates_iff.1 hmem
  have hp := hreads.pattern
  obtain ⟨j, -, hsame, hapart⟩ := exists_sameHit_of_redactFrom hp mode hranges hpairwise
    (fun m _ => Nat.zero_le _) (.inl rfl) hhit
  -- the same digits are a candidate in the text, so their range is redacted
  have hcandidate : candidateOf p text detector confidence (j, gap) ∈
      confident text detectors minConfidence := by
    refine List.mem_filter.2 ⟨mem_candidates_iff.2 ⟨p, detector, confidence, j, gap, hdetector,
      hsame.isHit, ?_, rfl⟩, hconfident⟩
    rw [hsame.separator, hsame.digits]
    exact hreads
  obtain ⟨m, hm, hstart, hstop⟩ := exists_found text detectors minConfidence hcandidate
  have hlt := (hranges m hm).lt
  have hstart : m.start = j := hstart
  have hstop : m.stop = j + p.length gap := hstop
  rcases hapart m hm with hbefore | hbehind <;> omega

/-- **Redaction is complete and local**: the ids found are one behind the other, redaction replaces
them and leaves the rest as it is, and in the redacted text no id is found. -/
theorem redaction_complete :
    (findNationalIds text detectors minConfidence).Pairwise
        (fun a b => a.start ≤ b.start ∧ a.stop ≤ b.start) ∧
      Rewritten text (replacementOf text mode) 0 (findNationalIds text detectors minConfidence)
        (redactNationalIds text (findNationalIds text detectors minConfidence) mode) ∧
      findNationalIds (redactNationalIds text (findNationalIds text detectors minConfidence) mode)
        detectors minConfidence = [] := by
  have hranges := fun m hm => isHitRange_of_mem_found text detectors minConfidence (m := m) hm
  have hpairwise := findNationalIds_pairwise text detectors minConfidence
  refine ⟨List.Pairwise.imp_of_mem (fun {a b} ha _ hab => ?_) hpairwise, ?_, ?_⟩
  · have hlt := (hranges a ha).lt
    exact ⟨by omega, hab⟩
  · rw [redactNationalIds_eq mode hranges hpairwise]
    exact rewritten_redactFrom mode hranges hpairwise fun m _ => Nat.zero_le _
  · rw [findNationalIds_eq, confident_redacted, ranked, List.mergeSort_nil]
    rfl

end Redaction

end Munin.NationalIds
