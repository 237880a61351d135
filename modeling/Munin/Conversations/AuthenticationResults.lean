import Munin.Conversations.ReplyAddresses
import Munin.Foundations.HeaderText

/-!
# Authentication results

The receiving mail server writes into a header which checks a message has passed. Its comments and
quoted strings repeat what the sender wrote, so the header is read by three scanners, one that
strips comments, one that splits at semicolons and one that splits at blanks, which have to agree
on where quoted strings are.

* **`parseAuthenticationResults`** — what the header says.
* **`evaluateInboundEmailAuth`** — the verdict about the sender.
* **`authentication_results_are_not_forged`** — the results of a header are the ones it was written
  with, whatever text stands in its comments and quoted strings. So this text does not change the
  verdict, the value of `header.from` apart.
-/

namespace Munin.Conversations

open Foundations

inductive EmailAuthVerdict where
  | pass
  | fail
  | unknown
  | forwarded

/-- What one check says; the properties stand in the order in which they came. -/
structure AuthResultInfo where
  method : Utf16Text
  result : Utf16Text
  props : List (Utf16Text × Utf16Text)

structure ParsedAuthenticationResults where
  authservId : Utf16Text
  results : List AuthResultInfo

/-! ### The three scanners -/

/-- The loop of `stripAuthResultComments`, with its `depth` and `inQuote`. -/
def stripFrom : ℕ → Bool → Utf16Text → Utf16Text
  | _, _, [] => []
  | depth, true, ch :: rest =>
    if ch = 0x5c then
      match rest with
      | [] => [ch]
      | next :: rest => ch :: next :: stripFrom depth true rest
    else ch :: stripFrom depth (ch ≠ 0x22) rest
  | depth + 1, false, ch :: rest =>
    if ch = 0x5c then
      match rest with
      | [] => []
      | _ :: rest => stripFrom (depth + 1) false rest
    else if ch = 0x28 then stripFrom (depth + 2) false rest
    else if ch = 0x29 then stripFrom depth false rest
    else stripFrom (depth + 1) false rest
  | 0, false, ch :: rest =>
    if ch = 0x28 then stripFrom 1 false rest
    else if ch = 0x29 then stripFrom 0 false rest
    else ch :: stripFrom 0 (ch = 0x22) rest

def stripAuthResultComments (value : Utf16Text) : Utf16Text := stripFrom 0 false value

/-- The loop of `splitOutsideQuotes`, with its `inQuote` and `current`. -/
def splitFrom (isSeparator : ℕ → Bool) : Bool → Utf16Text → Utf16Text → List Utf16Text
  | _, current, [] => [current]
  | true, current, ch :: rest =>
    if ch = 0x5c then
      match rest with
      | [] => [current ++ [ch]]
      | next :: rest => splitFrom isSeparator true (current ++ [ch, next]) rest
    else splitFrom isSeparator (ch ≠ 0x22) (current ++ [ch]) rest
  | false, current, ch :: rest =>
    if ch = 0x22 then splitFrom isSeparator true (current ++ [ch]) rest
    else if isSeparator ch then current :: splitFrom isSeparator false [] rest
    else splitFrom isSeparator false (current ++ [ch]) rest

def splitOutsideQuotes (value : Utf16Text) (isSeparator : ℕ → Bool) : List Utf16Text :=
  splitFrom isSeparator false [] value

/-! ### Words -/

/-- A line terminator, which a regular expression's dot does not match. -/
def isLineTerminator (u : ℕ) : Bool := u == 0x0a || u == 0x0d || u == 0x2028 || u == 0x2029

/-- `text.replace(/\\(.)/g, '$1')`. -/
def unescape : Utf16Text → Utf16Text
  | [] => []
  | u :: rest =>
    if u = 0x5c then
      match rest with
      | [] => [u]
      | v :: rest => if isLineTerminator v then u :: v :: unescape rest else v :: unescape rest
    else u :: unescape rest

def unquote (value : Utf16Text) : Utf16Text :=
  if 2 ≤ value.length ∧ value.head? = some 0x22 ∧ value.getLast? = some 0x22 then
    unescape (value.drop 1).dropLast
  else value

def isDigitUnit (u : ℕ) : Bool := 0x30 ≤ u && u ≤ 0x39

def isAlnumUnit (u : ℕ) : Bool :=
  (0x41 ≤ u && u ≤ 0x5a) || (0x61 ≤ u && u ≤ 0x7a) || isDigitUnit u

/-- What is left of a text that `(?:\/[0-9]+)?` has matched at its beginning. -/
def skipVersion : Utf16Text → Utf16Text
  | [] => []
  | u :: rest =>
    if u = 0x2f ∧ rest.takeWhile isDigitUnit ≠ [] then rest.dropWhile isDigitUnit else u :: rest

/-- The groups of `METHOD_SPEC`, `/^([a-z0-9][a-z0-9_-]*)(?:\/[0-9]+)?=([a-z0-9_-]+)$/i`. No
unit that a repetition matches is one that may stand behind it, so none has to be given back. -/
def methodSpec (token : Utf16Text) : Option (Utf16Text × Utf16Text) :=
  let method := token.takeWhile isKeyUnit
  match skipVersion (token.dropWhile isKeyUnit) with
  | [] => none
  | u :: result =>
    if method.head?.any isAlnumUnit ∧ u = 0x3d ∧ result ≠ [] ∧ result.all isKeyUnit then
      some (method, result)
    else none

/-- The part of a key from its dot on, for `(?:\.[a-z0-9_.-]+)?`. -/
def propertyPart : Utf16Text → Utf16Text
  | [] => []
  | u :: rest =>
    let property := rest.takeWhile fun v => isKeyUnit v || v == 0x2e
    if u = 0x2e ∧ property ≠ [] then u :: property else []

/-- The groups of `PROP_SPEC`, `/^([a-z0-9_-]+(?:\.[a-z0-9_.-]+)?)=(.*)$/i`. -/
def propSpec (token : Utf16Text) : Option (Utf16Text × Utf16Text) :=
  let ptype := token.takeWhile isKeyUnit
  let key := ptype ++ propertyPart (token.dropWhile isKeyUnit)
  match token.drop key.length with
  | [] => none
  | u :: value =>
    if ptype ≠ [] ∧ u = 0x3d ∧ value.all fun v => !isLineTerminator v then some (key, value)
    else none

/-- `toLowerCase` for the texts that the two patterns match, whose letters are ASCII. -/
def toLowerAscii (text : Utf16Text) : Utf16Text := text.map asciiLower

/-- The keys that every object has. -/
def inheritedKeys : List Utf16Text :=
  ["constructor", "__defineGetter__", "__defineSetter__", "hasOwnProperty", "__lookupGetter__",
    "__lookupSetter__", "isPrototypeOf", "propertyIsEnumerable", "toString", "valueOf",
    "__proto__", "toLocaleString"].map utf16

/-- One turn of the loop over the words behind the method. -/
def addProp (props : List (Utf16Text × Utf16Text)) (token : Utf16Text) :
    List (Utf16Text × Utf16Text) :=
  match propSpec token with
  | none => props
  | some (name, value) =>
    let key := toLowerAscii name
    if key ∈ inheritedKeys ∨ key ∈ props.map Prod.fst then props
    else props ++ [(key, unquote value)]

/-! ### Parsing -/

/-- The words of a segment: `filter(Boolean)` leaves those that are not empty. -/
def segmentTokens (segment : Utf16Text) : List Utf16Text :=
  (splitOutsideQuotes (trimUnits segment) isBlankUnit).filter (· ≠ [])

/-- One turn of the loop over the segments. -/
def parseSegment (segment : Utf16Text) : Option AuthResultInfo :=
  match segmentTokens segment with
  | [] => none
  | token :: tokens =>
    (methodSpec token).map fun spec =>
      ⟨toLowerAscii spec.1, toLowerAscii spec.2, tokens.foldl addProp []⟩

def parseAuthenticationResults (header : Utf16Text) : Option ParsedAuthenticationResults :=
  let segments := splitOutsideQuotes (stripAuthResultComments header) (· == 0x3b)
  let authservId := (trimUnits (segments.headD [])).takeWhile fun u => !isBlankUnit u
  if authservId = [] then none else some ⟨authservId, segments.tail.filterMap parseSegment⟩

/-! ### The verdict -/

/-- `text.replace(/\.$/, '')`. -/
def dropFinalDot (text : Utf16Text) : Utf16Text :=
  if text.getLast? = some 0x2e then text.dropLast else text

variable (lower : Utf16Text → Utf16Text)

def emailDomain (address : Option Utf16Text) : Option Utf16Text :=
  let text := lower (trimUnits (address.getD []))
  if 0x40 ∈ text then
    let domain := (text.rtakeWhile (· ≠ 0x40)).rdropWhile fun u => u = 0x3e ∨ isBlankUnit u = true
    (some (dropFinalDot domain)).filter (· ≠ [])
  else none

def headerFromKey : Utf16Text := utf16 "header.from"

/-- The verdict about results that were read. -/
def dmarcVerdict (results : List AuthResultInfo) (fromAddress : Option Utf16Text) :
    EmailAuthVerdict :=
  match results.filter fun r => r.method = utf16 "dmarc" with
  | [] => .unknown
  | [only] =>
    if only.result = utf16 "fail" then .fail
    else if only.result ≠ utf16 "pass" then .unknown
    else
      match emailDomain lower fromAddress with
      | none => .fail
      | some fromDomain =>
        match ((only.props.lookup headerFromKey).map fun v => lower (trimUnits v)).filter (· ≠ [])
          with
        | none => .unknown
        | some headerFrom => if dropFinalDot headerFrom = fromDomain then .pass else .fail
  | _ :: _ :: _ => .fail

/-- `evaluateInboundEmailAuth`, with what `toLowerCase` does. -/
def evaluateInboundEmailAuth (authenticationResults : List Utf16Text)
    (fromAddress : Option Utf16Text) : EmailAuthVerdict :=
  match authenticationResults.head?.filter (· ≠ []) with
  | none => .unknown
  | some topmost =>
    match parseAuthenticationResults topmost with
    | none => .unknown
    | some parsed => dmarcVerdict lower parsed.results fromAddress

/-! ### How results are written -/

/-- A unit that needs no quotes. -/
def IsBareUnit (u : ℕ) : Prop :=
  isBlankUnit u = false ∧ u ≠ 0x22 ∧ u ≠ 0x28 ∧ u ≠ 0x29 ∧ u ≠ 0x3b

def NoLineBreaks (text : Utf16Text) : Prop := ∀ u ∈ text, isLineTerminator u = false

/-- A value, and how it is written: as it is, in quotes, or as a mailbox whose local part is in
quotes, which belong to the value. -/
inductive WrittenValue : Utf16Text → Utf16Text → Prop
  | bare {value : Utf16Text} (h : ∀ u ∈ value, IsBareUnit u) : WrittenValue value value
  | quoted {value body : Utf16Text} (hbody : QuotedBody value body) (hline : NoLineBreaks value) :
      WrittenValue value (0x22 :: body ++ [0x22])
  | mailbox {name body domain : Utf16Text} (hbody : QuotedBody name body)
      (hline : NoLineBreaks body) (hdomain : ∀ u ∈ domain, IsBareUnit u) :
      WrittenValue (0x22 :: body ++ 0x22 :: 0x40 :: domain) (0x22 :: body ++ 0x22 :: 0x40 :: domain)

/-- The name of a property: the reason, or a type and a property with a dot between them. -/
inductive PropertyName : Utf16Text → Prop
  | reason {name : Utf16Text} (h : toLowerAscii name = utf16 "reason") : PropertyName name
  | property {ptype property : Utf16Text} (hptype : ptype ≠ [])
      (hunits : ∀ u ∈ ptype, isKeyUnit u = true) (hproperty : property ≠ [])
      (hunits' : ∀ u ∈ property, isKeyUnit u = true ∨ u = 0x2e) :
      PropertyName (ptype ++ 0x2e :: property)

/-- A property, and the word that says it; the letter case of its name does not matter. -/
def WrittenProperty (p : Utf16Text × Utf16Text) (word : Utf16Text) : Prop :=
  ∃ name written, word = name ++ 0x3d :: written ∧ PropertyName name ∧ p.1 = toLowerAscii name ∧
    WrittenValue p.2 written

/-- A slash with a number, or nothing. -/
def IsVersion (text : Utf16Text) : Prop :=
  text = [] ∨ ∃ digits, digits ≠ [] ∧ (∀ u ∈ digits, isDigitUnit u = true) ∧ text = 0x2f :: digits

/-- A result, and the words that say it. Properties of a result have different names. -/
inductive WrittenResult : AuthResultInfo → List Utf16Text → Prop
  | intro {method version result : Utf16Text} {props : List (Utf16Text × Utf16Text)}
      {words : List Utf16Text} (hmethod : method.head?.any isAlnumUnit = true)
      (hunits : ∀ u ∈ method, isKeyUnit u = true) (hversion : IsVersion version)
      (hresult : result ≠ []) (hunits' : ∀ u ∈ result, isKeyUnit u = true)
      (hprops : List.Forall₂ WrittenProperty props words) (hkeys : (props.map Prod.fst).Nodup) :
      WrittenResult ⟨toLowerAscii method, toLowerAscii result, props⟩
        ((method ++ version ++ 0x3d :: result) :: words)

/-- The segments behind the server's name: one for each result, or one that says there is none. -/
inductive WrittenSegments : List AuthResultInfo → List Utf16Text → Prop
  | none {segment : Utf16Text} (h : Segment [utf16 "none"] segment) : WrittenSegments [] [segment]
  | some {results : List AuthResultInfo} {segments : List Utf16Text}
      (h : List.Forall₂ (fun r segment => ∃ words, WrittenResult r words ∧ Segment words segment)
        results segments) : WrittenSegments results segments

/-- **A header with some results**: the name of the server, perhaps with a version behind it, and a
segment for each result, all with comments put in. -/
def WrittenHeader (authservId : Utf16Text) (results : List AuthResultInfo)
    (header : Utf16Text) : Prop :=
  ∃ version first segments, authservId ≠ [] ∧
    (∀ word ∈ authservId :: version, ∀ u ∈ word, IsBareUnit u) ∧ [] ∉ version ∧
    Segment (authservId :: version) first ∧ WrittenSegments results segments ∧
    WithComments (first ++ segments.flatMap (0x3b :: ·)) header

/-! ### What the scanners do -/

variable {u : ℕ} {value body text segment name written word : Utf16Text} {words : List Utf16Text}
  {p : Utf16Text × Utf16Text} {props : List (Utf16Text × Utf16Text)} {results : List AuthResultInfo}

theorem stripFrom_quoted (hu : u ≠ 0x5c) (depth : ℕ) (rest : Utf16Text) :
    stripFrom depth true (u :: rest) = u :: stripFrom depth (u ≠ 0x22) rest := by
  cases rest <;> exact if_neg hu

theorem stripFrom_escaped (u depth : ℕ) (rest : Utf16Text) :
    stripFrom depth true (0x5c :: u :: rest) = 0x5c :: u :: stripFrom depth true rest :=
  if_pos rfl

theorem stripFrom_comment (hu : u ≠ 0x5c) (depth : ℕ) (rest : Utf16Text) :
    stripFrom (depth + 1) false (u :: rest) =
      if u = 0x28 then stripFrom (depth + 2) false rest
      else if u = 0x29 then stripFrom depth false rest
      else stripFrom (depth + 1) false rest := by
  cases rest <;> exact if_neg hu

theorem stripFrom_outside (u : ℕ) (rest : Utf16Text) :
    stripFrom 0 false (u :: rest) =
      if u = 0x28 then stripFrom 1 false rest
      else if u = 0x29 then stripFrom 0 false rest
      else u :: stripFrom 0 (u = 0x22) rest := by
  cases rest <;> rfl

theorem splitFrom_quoted (hu : u ≠ 0x5c) (isSeparator : ℕ → Bool)
    (current rest : Utf16Text) : splitFrom isSeparator true current (u :: rest) =
      splitFrom isSeparator (u ≠ 0x22) (current ++ [u]) rest := by
  cases rest <;> exact if_neg hu

theorem splitFrom_escaped (isSeparator : ℕ → Bool) (u : ℕ) (current rest : Utf16Text) :
    splitFrom isSeparator true current (0x5c :: u :: rest) =
      splitFrom isSeparator true (current ++ [0x5c, u]) rest :=
  if_pos rfl

theorem splitFrom_outside (isSeparator : ℕ → Bool) (u : ℕ) (current rest : Utf16Text) :
    splitFrom isSeparator false current (u :: rest) =
      if u = 0x22 then splitFrom isSeparator true (current ++ [u]) rest
      else if isSeparator u then current :: splitFrom isSeparator false [] rest
      else splitFrom isSeparator false (current ++ [u]) rest := by
  cases rest <;> rfl

theorem stripFrom_commentBody {inner : Utf16Text} (h : CommentBody inner) (depth : ℕ)
    (rest : Utf16Text) : stripFrom (depth + 1) false (inner ++ rest) =
      stripFrom (depth + 1) false rest := by
  induction h generalizing depth rest with
  | nil => rfl
  | plain hu _ ih =>
    rw [List.cons_append, stripFrom_comment hu.2.2, if_neg hu.1, if_neg hu.2.1]
    exact ih depth rest
  | escaped u _ ih => exact ih depth rest
  | nested _ _ ihinner ih =>
    rw [List.append_assoc, List.cons_append, stripFrom_comment (by decide), if_pos rfl,
      ihinner, List.cons_append, stripFrom_comment (by decide), if_neg (by decide), if_pos rfl]
    exact ih depth rest

theorem stripFrom_quotedBody (h : QuotedBody value body) (depth : ℕ) (rest : Utf16Text) :
    stripFrom depth true (body ++ rest) = body ++ stripFrom depth true rest := by
  induction h with
  | nil => rfl
  | plain hu _ ih =>
    rw [List.cons_append, stripFrom_quoted hu.2, decide_eq_true hu.1, ih, List.cons_append]
  | escaped u _ ih =>
    rw [List.cons_append, List.cons_append, stripFrom_escaped, ih, List.cons_append,
      List.cons_append]

/-- **Stripping takes out the comments**, and these only. -/
theorem stripAuthResultComments_withComments {header : Utf16Text}
    (h : WithComments text header) : stripAuthResultComments header = text := by
  induction h with
  | nil => rfl
  | comment hinner _ ih =>
    rw [stripAuthResultComments, List.cons_append, stripFrom_outside, if_pos rfl,
      stripFrom_commentBody hinner, stripFrom_comment (by decide), if_neg (by decide), if_pos rfl]
    exact ih
  | plain hu _ ih =>
    rw [stripAuthResultComments, stripFrom_outside, if_neg hu.2.1, if_neg hu.2.2, decide_eq_false hu.1]
    exact congrArg _ ih
  | @quoted value body text field hbody _ ih =>
    rw [stripAuthResultComments, List.cons_append, stripFrom_outside, if_neg (by decide),
      if_neg (by decide), decide_eq_true rfl, stripFrom_quotedBody hbody,
      stripFrom_quoted (by decide), List.cons_append]
    exact congrArg (fun rest => 0x22 :: (body ++ 0x22 :: rest)) ih

variable {isSeparator : ℕ → Bool}

theorem splitFrom_quotedBody (h : QuotedBody value body)
    (current rest : Utf16Text) : splitFrom isSeparator true current (body ++ rest) =
      splitFrom isSeparator true (current ++ body) rest := by
  induction h generalizing current with
  | nil => rw [List.append_nil, List.nil_append]
  | plain hu _ ih =>
    rw [List.cons_append, splitFrom_quoted hu.2, decide_eq_true hu.1, ih, List.append_assoc,
      List.singleton_append]
  | escaped u _ ih =>
    rw [List.cons_append, List.cons_append, splitFrom_escaped, ih, List.append_assoc,
      List.cons_append, List.singleton_append]

/-- A text that separators do not break stays in one piece. -/
theorem splitFrom_unbroken (h : Unbroken isSeparator text)
    (current rest : Utf16Text) : splitFrom isSeparator false current (text ++ rest) =
      splitFrom isSeparator false (current ++ text) rest := by
  induction h generalizing current with
  | nil => rw [List.append_nil, List.nil_append]
  | plain hu _ ih =>
    rw [List.cons_append, splitFrom_outside, if_neg hu.1, if_neg (by rw [hu.2]; exact Bool.false_ne_true),
      ih, List.append_assoc, List.singleton_append]
  | quoted hbody _ ih =>
    rw [List.append_assoc, List.cons_append, List.cons_append, splitFrom_outside, if_pos rfl,
      splitFrom_quotedBody hbody, splitFrom_quoted (by decide), decide_eq_false (by decide), ih]
    simp only [List.append_assoc, List.cons_append, List.nil_append]

variable {segments : List Utf16Text} {r : AuthResultInfo}

theorem splitFrom_segments {c : ℕ} (hc : isSeparator c = true) (hquote : c ≠ 0x22)
    {first : Utf16Text} (hfirst : Unbroken isSeparator first)
    (hsegments : ∀ segment ∈ segments, Unbroken isSeparator segment) (current : Utf16Text) :
    splitFrom isSeparator false current (first ++ segments.flatMap (c :: ·)) =
      (current ++ first) :: segments := by
  induction segments generalizing first current with
  | nil => exact splitFrom_unbroken hfirst current []
  | cons segment segments ih =>
    rw [splitFrom_unbroken hfirst, List.flatMap_cons, List.cons_append, splitFrom_outside, if_neg hquote,
      if_pos hc, ih (hsegments segment List.mem_cons_self)
        fun s hs => hsegments s (List.mem_cons_of_mem _ hs), List.nil_append]

/-- Blanks before a word make no words. -/
theorem splitFrom_gap {gap : Utf16Text} (hgap : ∀ u ∈ gap, isBlankUnit u = true)
    (rest : Utf16Text) :
    (splitFrom isBlankUnit false [] (gap ++ rest)).filter (· ≠ []) =
      (splitFrom isBlankUnit false [] rest).filter (· ≠ []) := by
  induction gap with
  | nil => rfl
  | cons u gap ih =>
    have hu := hgap u List.mem_cons_self
    have hquote : u ≠ 0x22 := by
      rintro rfl
      exact Bool.false_ne_true hu
    rw [List.cons_append, splitFrom_outside, if_neg hquote, if_pos hu, List.filter_cons_of_neg (by simp)]
    exact ih fun v hv => hgap v (List.mem_cons_of_mem _ hv)

/-- **Splitting at blanks gives the words**. -/
theorem splitOutsideQuotes_spaced (h : WordsApart words text) (hwords : AreWords words) :
    (splitOutsideQuotes text isBlankUnit).filter (· ≠ []) = words := by
  induction h with
  | one word =>
    obtain ⟨hne, hword⟩ := hwords word List.mem_cons_self
    rw [splitOutsideQuotes, ← List.append_nil word, splitFrom_unbroken hword, List.nil_append,
      List.append_nil, splitFrom, List.filter_cons_of_pos (by simpa using hne), List.filter_nil]
  | @cons words text word gap hne hgap _ ih =>
    obtain ⟨hword, hunbroken⟩ := hwords word List.mem_cons_self
    obtain ⟨u, gap, rfl⟩ := List.exists_cons_of_ne_nil hne
    have hu := hgap u List.mem_cons_self
    have hquote : u ≠ 0x22 := by
      rintro rfl
      exact Bool.false_ne_true hu
    rw [splitOutsideQuotes, List.append_assoc, splitFrom_unbroken hunbroken, List.nil_append,
      List.cons_append, splitFrom_outside, if_neg hquote, if_pos hu,
      List.filter_cons_of_pos (by simpa using hword),
      splitFrom_gap fun v hv => hgap v (List.mem_cons_of_mem _ hv)]
    exact congrArg _ (ih fun w hw => hwords w (List.mem_cons_of_mem _ hw))

theorem segmentTokens_segment
    (h : Segment words segment) (hwords : AreWords words) : segmentTokens segment = words :=
  splitOutsideQuotes_spaced (h.trim hwords) hwords

/-! ### What the patterns match -/

theorem isBareUnit_of_isKeyUnit (h : isKeyUnit u = true) : IsBareUnit u := by
  simp only [isKeyUnit, Bool.or_eq_true, Bool.and_eq_true, decide_eq_true_eq, beq_iff_eq] at h
  simp only [IsBareUnit, isBlankUnit, Bool.or_eq_false_iff, Bool.and_eq_false_iff,
    decide_eq_false_iff_not, beq_eq_false_iff_ne]
  omega

theorem isLineTerminator_of_isBareUnit (h : IsBareUnit u) : isLineTerminator u = false := by
  have hblank := h.1
  simp only [isBlankUnit, Bool.or_eq_false_iff, Bool.and_eq_false_iff, decide_eq_false_iff_not,
    beq_eq_false_iff_ne] at hblank
  simp only [isLineTerminator, Bool.or_eq_false_iff, beq_eq_false_iff_ne]
  omega

/-- Where a repetition ends. -/
theorem takeWhile_dropWhile_append {p : ℕ → Bool} {run : Utf16Text}
    (hrun : ∀ u ∈ run, p u = true) (hu : p u = false) (rest : Utf16Text) :
    (run ++ u :: rest).takeWhile p = run ∧ (run ++ u :: rest).dropWhile p = u :: rest := by
  have hnot : ¬ p u = true := by rw [hu]; exact Bool.false_ne_true
  rw [List.takeWhile_append_of_pos hrun, List.dropWhile_append_of_pos hrun,
    List.takeWhile_cons_of_neg hnot, List.dropWhile_cons_of_neg hnot, List.append_nil]
  exact ⟨rfl, rfl⟩

theorem skipVersion_written {version : Utf16Text} (h : IsVersion version) (rest : Utf16Text) :
    skipVersion (version ++ 0x3d :: rest) = 0x3d :: rest := by
  rcases h with rfl | ⟨digits, hne, hdigits, rfl⟩
  · rw [List.nil_append, skipVersion]
    exact if_neg fun h => absurd h.1 (by decide)
  · obtain ⟨htake, hdrop⟩ := takeWhile_dropWhile_append hdigits (u := 0x3d) (by decide) rest
    rw [List.cons_append, skipVersion, htake, hdrop]
    exact if_pos ⟨rfl, hne⟩

theorem methodSpec_written {method version result : Utf16Text}
    (hmethod : method.head?.any isAlnumUnit = true) (hunits : ∀ u ∈ method, isKeyUnit u = true)
    (hversion : IsVersion version) (hresult : result ≠ [])
    (hunits' : ∀ u ∈ result, isKeyUnit u = true) :
    methodSpec (method ++ version ++ 0x3d :: result) = some (method, result) := by
  have hspan : (method ++ (version ++ 0x3d :: result)).takeWhile isKeyUnit = method ∧
      (method ++ (version ++ 0x3d :: result)).dropWhile isKeyUnit = version ++ 0x3d :: result := by
    rcases hversion with rfl | ⟨digits, -, -, rfl⟩
    · exact takeWhile_dropWhile_append hunits (by decide) result
    · exact takeWhile_dropWhile_append hunits (by decide) (digits ++ 0x3d :: result)
  rw [methodSpec, List.append_assoc, hspan.1, hspan.2, skipVersion_written hversion]
  exact if_pos ⟨hmethod, rfl, hresult, List.all_eq_true.2 hunits'⟩

/-- A letter of the reason's name, in either case. -/
theorem isKeyUnit_of_asciiLower (h : asciiLower u ∈ utf16 "reason") : isKeyUnit u = true := by
  have hletter : ∀ v ∈ utf16 "reason", 0x61 ≤ v ∧ v ≤ 0x7a := by decide
  have hlower := hletter _ h
  unfold asciiLower at hlower
  simp only [isKeyUnit, Bool.or_eq_true, Bool.and_eq_true, decide_eq_true_eq, beq_iff_eq]
  split_ifs at hlower <;> omega

/-- The two parts of a property's name. -/
theorem PropertyName.parts (h : PropertyName name) :
    ∃ ptype part, name = ptype ++ part ∧ ptype ≠ [] ∧ (∀ u ∈ ptype, isKeyUnit u = true) ∧
      (part = [] ∨ ∃ property, part = 0x2e :: property ∧ property ≠ [] ∧
        ∀ u ∈ property, (isKeyUnit u || u == 0x2e) = true) := by
  cases h with
  | reason h =>
    refine ⟨name, [], (List.append_nil _).symm, ?_, fun u hu => isKeyUnit_of_asciiLower ?_, .inl rfl⟩
    · rintro rfl
      exact absurd h (by decide)
    · rw [← h]
      exact List.mem_map_of_mem hu
  | @property ptype property hptype hunits hproperty hunits' =>
    refine ⟨ptype, 0x2e :: property, rfl, hptype, hunits, .inr ⟨property, rfl, hproperty, ?_⟩⟩
    intro u hu
    rw [Bool.or_eq_true, beq_iff_eq]
    exact hunits' u hu

theorem propSpec_written (hname : PropertyName name)
    (hvalue : NoLineBreaks value) : propSpec (name ++ 0x3d :: value) = some (name, value) := by
  obtain ⟨ptype, part, rfl, hptype, hunits, hpart⟩ := hname.parts
  have hspan : (ptype ++ (part ++ 0x3d :: value)).takeWhile isKeyUnit = ptype ∧
      (ptype ++ (part ++ 0x3d :: value)).dropWhile isKeyUnit = part ++ 0x3d :: value := by
    rcases hpart with rfl | ⟨property, rfl, -, -⟩
    · exact takeWhile_dropWhile_append hunits (by decide) value
    · exact takeWhile_dropWhile_append hunits (by decide) (property ++ 0x3d :: value)
  have hproperty : propertyPart (part ++ 0x3d :: value) = part := by
    rcases hpart with rfl | ⟨property, rfl, hne, hunits'⟩
    · rw [List.nil_append, propertyPart]
      exact if_neg fun h => absurd h.1 (by decide)
    · rw [List.cons_append, propertyPart,
        (takeWhile_dropWhile_append hunits' (u := 0x3d) (by decide) value).1]
      exact if_pos ⟨rfl, hne⟩
  have hall : (value.all fun v => !isLineTerminator v) = true :=
    List.all_eq_true.2 fun v hv => by rw [hvalue v hv]; rfl
  rw [propSpec, List.append_assoc, hspan.1, hspan.2, hproperty, ← List.append_assoc]
  simp only [List.drop_left]
  exact if_pos ⟨hptype, trivial, hall⟩

/-! ### What the values are -/

theorem unescape_quotedBody (h : QuotedBody value body)
    (hline : NoLineBreaks value) : unescape body = value := by
  induction h with
  | nil => rfl
  | plain hu _ ih =>
    rw [unescape.eq_def]
    simp only [if_neg hu.2]
    rw [ih fun v hv => hline v (List.mem_cons_of_mem _ hv)]
  | escaped u _ ih =>
    rw [unescape.eq_def]
    simp only [if_pos, hline u List.mem_cons_self, Bool.false_eq_true, if_false]
    rw [ih fun v hv => hline v (List.mem_cons_of_mem _ hv)]

/-- **A written value is read as the value**. -/
theorem unquote_written (h : WrittenValue value written) : unquote written = value := by
  cases h with
  | bare h =>
    refine if_neg fun hquote => ?_
    exact (h _ (List.mem_of_mem_head? hquote.2.1)).2.1 rfl
  | @quoted _ body hbody hline =>
    rw [unquote, if_pos ⟨by simp, rfl, List.getLast?_concat⟩, List.cons_append, List.drop_one,
      List.tail_cons, List.dropLast_concat]
    exact unescape_quotedBody hbody hline
  | @mailbox name body domain _ _ hdomain =>
    refine if_neg fun hquote => ?_
    have hlast := hquote.2.2
    rw [List.getLast?_append_cons, List.getLast?_cons_cons] at hlast
    rcases List.mem_cons.1 (List.mem_of_getLast? hlast) with heq | hmem
    · exact absurd heq (by decide)
    · exact (hdomain _ hmem).2.1 rfl

theorem WrittenValue.noLineBreaks (h : WrittenValue value written) : NoLineBreaks written := by
  have hbody {text body : Utf16Text} (h : QuotedBody text body) (hline : NoLineBreaks text) :
      NoLineBreaks body := by
    intro u hu
    rcases h.mem hu with hu | rfl
    · exact hline u hu
    · rfl
  cases h with
  | bare h => exact fun u hu => isLineTerminator_of_isBareUnit (h u hu)
  | @quoted _ body h hline =>
    intro u hu
    simp only [List.mem_cons, List.mem_append, List.not_mem_nil, or_false] at hu
    rcases hu with (rfl | hu) | rfl
    · rfl
    · exact hbody h hline u hu
    · rfl
  | @mailbox name body domain _ hline hdomain =>
    intro u hu
    simp only [List.mem_cons, List.mem_append] at hu
    rcases hu with (rfl | hu) | rfl | rfl | hu
    · rfl
    · exact hline u hu
    · rfl
    · rfl
    · exact isLineTerminator_of_isBareUnit (hdomain u hu)

/-! ### Words do not break -/

theorem PropertyName.isBareUnit (h : PropertyName name) : ∀ u ∈ name, IsBareUnit u := by
  obtain ⟨ptype, part, rfl, -, hunits, hpart⟩ := h.parts
  intro u hu
  rcases List.mem_append.1 hu with hu | hu
  · exact isBareUnit_of_isKeyUnit (hunits u hu)
  · rcases hpart with rfl | ⟨property, rfl, -, hunits'⟩
    · exact absurd hu List.not_mem_nil
    · rcases List.mem_cons.1 hu with rfl | hu
      · exact ⟨by decide, by decide⟩
      · have hor := hunits' u hu
        rw [Bool.or_eq_true, beq_iff_eq] at hor
        rcases hor with hkey | rfl
        · exact isBareUnit_of_isKeyUnit hkey
        · exact ⟨by decide, by decide⟩

/-- A separator is never a bare unit. -/
def SeparatesBare (isSeparator : ℕ → Bool) : Prop := ∀ u, IsBareUnit u → isSeparator u = false

section Bare

variable (hsep : SeparatesBare isSeparator)

include hsep

theorem unbroken_of_isBareUnit (h : ∀ u ∈ text, IsBareUnit u) : Unbroken isSeparator text :=
  .of_forall fun u hu => ⟨(h u hu).2.1, hsep u (h u hu)⟩

theorem WrittenValue.unbroken (h : WrittenValue value written) : Unbroken isSeparator written := by
  cases h with
  | bare h => exact unbroken_of_isBareUnit hsep h
  | quoted hbody _ => exact .quoted hbody .nil
  | mailbox hbody _ hdomain =>
    refine .quoted hbody (unbroken_of_isBareUnit hsep fun u hu => ?_)
    rcases List.mem_cons.1 hu with rfl | hu
    · exact ⟨by decide, by decide⟩
    · exact hdomain u hu

theorem WrittenProperty.unbroken (h : WrittenProperty p word) :
    word ≠ [] ∧ Unbroken isSeparator word := by
  obtain ⟨name, written, rfl, hname, -, hvalue⟩ := h
  have hequals : Unbroken isSeparator [0x3d] :=
    unbroken_of_isBareUnit hsep fun u hu => by
      rw [List.mem_singleton.1 hu]
      exact ⟨by decide, by decide⟩
  refine ⟨by simp, (unbroken_of_isBareUnit hsep hname.isBareUnit).append ?_⟩
  exact hequals.append (hvalue.unbroken hsep)

theorem writtenProperties_unbroken (h : List.Forall₂ WrittenProperty props words) :
    ∀ word ∈ words, word ≠ [] ∧ Unbroken isSeparator word := by
  induction h with
  | nil => exact fun word hword => absurd hword List.not_mem_nil
  | cons hp _ ih => exact List.forall_mem_cons.2 ⟨hp.unbroken hsep, ih⟩

theorem WrittenResult.unbroken (h : WrittenResult r words) :
    ∀ word ∈ words, word ≠ [] ∧ Unbroken isSeparator word := by
  obtain ⟨hmethod, hunits, hversion, hresult, hunits', hprops, hkeys⟩ := h
  rename_i method version result props words
  have hbare : ∀ u ∈ method ++ version ++ 0x3d :: result, IsBareUnit u := by
    intro u hu
    rcases List.mem_append.1 hu with hu | hu
    · rcases List.mem_append.1 hu with hu | hu
      · exact isBareUnit_of_isKeyUnit (hunits u hu)
      · rcases hversion with rfl | ⟨digits, -, hdigits, rfl⟩
        · exact absurd hu List.not_mem_nil
        · rcases List.mem_cons.1 hu with rfl | hu
          · exact ⟨by decide, by decide⟩
          · refine isBareUnit_of_isKeyUnit ?_
            have hdigit := hdigits u hu
            simp only [isDigitUnit, Bool.and_eq_true, decide_eq_true_eq] at hdigit
            simp [isKeyUnit, hdigit]
    · rcases List.mem_cons.1 hu with rfl | hu
      · exact ⟨by decide, by decide⟩
      · exact isBareUnit_of_isKeyUnit (hunits' u hu)
  intro word hword
  rcases List.mem_cons.1 hword with rfl | hword
  · exact ⟨by simp, unbroken_of_isBareUnit hsep hbare⟩
  · exact writtenProperties_unbroken hsep hprops word hword

end Bare

/-! ### What is read -/

theorem PropertyName.not_inherited (h : PropertyName name) : toLowerAscii name ∉ inheritedKeys := by
  have hkeys : ∀ key ∈ inheritedKeys, 0x2e ∉ key ∧ key ≠ utf16 "reason" := by decide +kernel
  intro hmem
  obtain ⟨hdot, hreason⟩ := hkeys _ hmem
  cases h with
  | reason h => exact hreason h
  | property => exact hdot (by simp [toLowerAscii, asciiLower])

/-- One word adds its property. -/
theorem addProp_written (h : WrittenProperty p word) (hnew : p.1 ∉ props.map Prod.fst) :
    addProp props word = props ++ [p] := by
  obtain ⟨name, written, rfl, hname, hkey, hvalue⟩ := h
  rw [addProp, propSpec_written hname hvalue.noLineBreaks]
  simp only [unquote_written hvalue]
  rw [← hkey, if_neg (not_or.2 ⟨hkey ▸ hname.not_inherited, hnew⟩)]

/-- **The words behind the method are read as the properties**. -/
theorem foldl_addProp_written
    (h : List.Forall₂ WrittenProperty props words) {read : List (Utf16Text × Utf16Text)}
    (hkeys : ((read ++ props).map Prod.fst).Nodup) :
    words.foldl addProp read = read ++ props := by
  induction h generalizing read with
  | nil => rw [List.foldl_nil, List.append_nil]
  | @cons p word props words hp _ ih =>
    have hnew : p.1 ∉ read.map Prod.fst := by
      rw [List.map_append, List.map_cons] at hkeys
      exact fun hmem => (List.nodup_append.1 hkeys).2.2 _ hmem _ List.mem_cons_self rfl
    rw [List.foldl_cons, addProp_written hp hnew, ih (by rwa [List.append_assoc]),
      List.append_assoc, List.singleton_append]

theorem separatesBare_blank : SeparatesBare isBlankUnit := fun _ h => h.1

theorem separatesBare_semicolon : SeparatesBare (· == 0x3b) := fun _ h =>
  beq_eq_false_iff_ne.2 h.2.2.2.2

theorem blank_ne_semicolon (h : isBlankUnit u = true) : u ≠ 0x22 ∧ (u == 0x3b) = false := by
  refine ⟨?_, beq_eq_false_iff_ne.2 ?_⟩ <;>
  · rintro rfl
    exact absurd h (by decide)

theorem parseSegment_written
    (hr : WrittenResult r words) (h : Segment words segment) : parseSegment segment = some r := by
  rw [parseSegment, segmentTokens_segment h (hr.unbroken separatesBare_blank)]
  obtain ⟨hmethod, hunits, hversion, hresult, hunits', hprops, hkeys⟩ := hr
  simp only [methodSpec_written hmethod hunits hversion hresult hunits', Option.map_some]
  rw [@foldl_addProp_written _ _ hprops [] hkeys, List.nil_append]

theorem none_isBareUnit : ∀ u ∈ utf16 "none", IsBareUnit u := by
  have hkeys : ∀ u ∈ utf16 "none", isKeyUnit u = true := by decide
  exact fun u hu => isBareUnit_of_isKeyUnit (hkeys u hu)

theorem parseSegment_none (h : Segment [utf16 "none"] segment) : parseSegment segment = none := by
  have hwords : AreWords [utf16 "none"] := by
    intro word hword
    rw [List.mem_singleton.1 hword]
    exact ⟨by decide, unbroken_of_isBareUnit separatesBare_blank none_isBareUnit⟩
  rw [parseSegment, segmentTokens_segment h hwords]
  rfl

/-- **The segments are read as the results**, and semicolons do not break them. -/
theorem WrittenSegments.parse (h : WrittenSegments results segments) :
    segments.filterMap parseSegment = results ∧
      ∀ segment ∈ segments, Unbroken (· == 0x3b) segment := by
  cases h with
  | none h =>
    refine ⟨by rw [List.filterMap_cons_none (parseSegment_none h), List.filterMap_nil], ?_⟩
    intro segment hsegment
    rw [List.mem_singleton.1 hsegment]
    refine h.unbroken (fun word hword => ?_) fun u hu => blank_ne_semicolon hu
    rw [List.mem_singleton.1 hword]
    exact unbroken_of_isBareUnit separatesBare_semicolon none_isBareUnit
  | some h =>
    induction h with
    | nil => exact ⟨rfl, fun segment hsegment => absurd hsegment List.not_mem_nil⟩
    | @cons r segment results segments hr _ ih =>
      obtain ⟨words, hwords, hsegment⟩ := hr
      refine ⟨by rw [List.filterMap_cons_some (parseSegment_written hwords hsegment), ih.1], ?_⟩
      intro other hother
      rcases List.mem_cons.1 hother with rfl | hother
      · exact hsegment.unbroken
          (fun word hword => (hwords.unbroken separatesBare_semicolon word hword).2)
          fun u hu => blank_ne_semicolon hu
      · exact ih.2 other hother

/-- The first word of a text. -/
theorem takeWhile_spaced (h : WordsApart (word :: words) text) (hword : ∀ u ∈ word, IsBareUnit u) :
    (text.takeWhile fun u => !isBlankUnit u) = word := by
  have hbare : ∀ u ∈ word, (!isBlankUnit u) = true := fun u hu => by rw [(hword u hu).1]; rfl
  cases h with
  | one => exact List.takeWhile_eq_self_iff.2 hbare
  | cons _ hne hgap _ =>
    obtain ⟨u, gap, rfl⟩ := List.exists_cons_of_ne_nil hne
    rw [List.append_assoc, List.cons_append]
    exact (takeWhile_dropWhile_append hbare (by rw [hgap u List.mem_cons_self]; rfl) _).1

/-- **A header is read as the results that it was written with**. -/
theorem parseAuthenticationResults_written {authservId : Utf16Text} {header : Utf16Text}
    (h : WrittenHeader authservId results header) :
    parseAuthenticationResults header = some ⟨authservId, results⟩ := by
  obtain ⟨version, first, segments, hne, hbare, hversion, hfirst, hsegments, hheader⟩ := h
  have hwords : AreWords (authservId :: version) := by
    refine fun word hword => ⟨?_, unbroken_of_isBareUnit separatesBare_blank (hbare word hword)⟩
    rintro rfl
    rcases List.mem_cons.1 hword with heq | hmem
    · exact hne heq.symm
    · exact hversion hmem
  have hunbroken : Unbroken (· == 0x3b) first :=
    hfirst.unbroken
      (fun word hword => unbroken_of_isBareUnit separatesBare_semicolon (hbare word hword))
      fun u hu => blank_ne_semicolon hu
  obtain ⟨hparse, hwhole⟩ := hsegments.parse
  have hsplit : splitOutsideQuotes (first ++ segments.flatMap (0x3b :: ·)) (· == 0x3b) =
      first :: segments :=
    splitFrom_segments rfl (by decide) hunbroken hwhole []
  have hid := takeWhile_spaced (hfirst.trim hwords) (hbare authservId List.mem_cons_self)
  rw [parseAuthenticationResults, stripAuthResultComments_withComments hheader, hsplit]
  simp only [List.headD_cons, List.tail_cons, hid, if_neg hne, hparse]

/-! ### The verdict -/

/-- What the verdict is about: the value of `header.from` is the only one of the values. -/
def AuthResultInfo.asserted (r : AuthResultInfo) : Utf16Text × Utf16Text × Option Utf16Text :=
  (r.method, r.result, r.props.lookup headerFromKey)

theorem dmarcVerdict_congr {results' : List AuthResultInfo}
    (h : results.map AuthResultInfo.asserted = results'.map AuthResultInfo.asserted)
    (fromAddress : Option Utf16Text) :
    dmarcVerdict lower results fromAddress = dmarcVerdict lower results' fromAddress := by
  have hfilter (results : List AuthResultInfo) :
      (results.filter fun r => r.method = utf16 "dmarc").map AuthResultInfo.asserted =
        (results.map AuthResultInfo.asserted).filter fun a => a.1 = utf16 "dmarc" := by
    rw [List.filter_map]
    rfl
  have hdmarc := (hfilter results).trans ((congrArg _ h).trans (hfilter results').symm)
  rw [dmarcVerdict, dmarcVerdict]
  generalize (results.filter fun r => r.method = utf16 "dmarc") = dmarc at hdmarc ⊢
  generalize (results'.filter fun r => r.method = utf16 "dmarc") = dmarc' at hdmarc ⊢
  match dmarc, dmarc', hdmarc with
  | [], [], _ => rfl
  | [only], [only'], hdmarc =>
    simp only [List.map_cons, List.map_nil, List.cons.injEq, AuthResultInfo.asserted,
      Prod.mk.injEq, and_true] at hdmarc
    obtain ⟨-, hresult, hfrom⟩ := hdmarc
    simp only [hresult, hfrom]
  | _ :: _ :: _, _ :: _ :: _, _ => rfl
  | [_], _ :: _ :: _, hdmarc => exact absurd (congrArg List.length hdmarc) (by simp)
  | _ :: _ :: _, [_], hdmarc => exact absurd (congrArg List.length hdmarc) (by simp)

/-- **Authentication results cannot be forged from inside values**: a header is read as the results
that it was written with, whatever text stands in its comments and quoted strings. Two headers
whose results are the same, but for values other than the one of `header.from`, get the same
verdict. -/
theorem authentication_results_are_not_forged :
    (∀ (authservId : Utf16Text) (results : List AuthResultInfo) (header : Utf16Text),
      WrittenHeader authservId results header →
        parseAuthenticationResults header = some ⟨authservId, results⟩) ∧
    ∀ (lower : Utf16Text → Utf16Text) (authservId authservId' : Utf16Text)
      (results results' : List AuthResultInfo) (header header' : Utf16Text)
      (below below' : List Utf16Text) (fromAddress : Option Utf16Text),
      WrittenHeader authservId results header → WrittenHeader authservId' results' header' →
      results.map AuthResultInfo.asserted = results'.map AuthResultInfo.asserted →
        evaluateInboundEmailAuth lower (header :: below) fromAddress =
          evaluateInboundEmailAuth lower (header' :: below') fromAddress := by
  refine ⟨fun _ _ _ h => parseAuthenticationResults_written h, ?_⟩
  intro lower authservId authservId' results results' header header' below below' fromAddress
    h h' hsame
  have hverdict {authservId : Utf16Text} {results : List AuthResultInfo} {header : Utf16Text}
      (h : WrittenHeader authservId results header) (below : List Utf16Text) :
      evaluateInboundEmailAuth lower (header :: below) fromAddress =
        dmarcVerdict lower results fromAddress := by
    have hparse := parseAuthenticationResults_written h
    have hne : header ≠ [] := by
      rintro rfl
      exact absurd hparse (by simp [show parseAuthenticationResults [] = none from rfl])
    rw [evaluateInboundEmailAuth, List.head?_cons, Option.filter_some_pos (by simpa using hne)]
    simp only [hparse]
  rw [hverdict h, hverdict h', dmarcVerdict_congr lower hsame]

/-- A header with a text that a sender chose, in a comment and in a property. -/
def sampleHeader (sent : Utf16Text) : Utf16Text :=
  utf16 "mx; dmarc=pass " ++ (0x28 :: escapeComment sent ++ 0x29 ::
    (utf16 " policy.note=" ++ (0x22 :: escapeQuoted sent ++ 0x22 :: [])))

def sampleResult (sent : Utf16Text) : AuthResultInfo :=
  ⟨utf16 "dmarc", utf16 "pass", [(utf16 "policy.note", sent)]⟩

theorem writtenHeader_sampleHeader {sent : Utf16Text} (h : NoLineBreaks sent) :
    WrittenHeader (utf16 "mx") [sampleResult sent] (sampleHeader sent) := by
  have hkey {text : Utf16Text} (h : ∀ u ∈ text, isKeyUnit u = true) : ∀ u ∈ text, IsBareUnit u :=
    fun u hu => isBareUnit_of_isKeyUnit (h u hu)
  have hblank : ∀ u ∈ [0x20], isBlankUnit u = true := by decide
  have hprop : WrittenProperty (utf16 "policy.note", sent)
      (utf16 "policy.note" ++ 0x3d :: (0x22 :: escapeQuoted sent ++ [0x22])) :=
    ⟨_, _, rfl, @PropertyName.property (utf16 "policy") (utf16 "note") (by decide) (by decide)
      (by decide) (by decide), rfl, .quoted (quotedBody_escapeQuoted sent) h⟩
  have hresult := @WrittenResult.intro (utf16 "dmarc") [] (utf16 "pass") _ _ (by decide)
    (by decide) (.inl rfl) (by decide) (by decide) (.cons hprop .nil) (List.nodup_singleton _)
  have hspaced := (WordsApart.one (utf16 "policy.note" ++ 0x3d :: (0x22 :: escapeQuoted sent ++
    [0x22]))).cons (utf16 "dmarc=pass") (by decide : [0x20, 0x20] ≠ []) (by decide)
  refine ⟨[], utf16 "mx", [[0x20] ++ _ ++ []], by decide, ?_, List.not_mem_nil,
    ⟨[], utf16 "mx", [], rfl, by simp, by simp, .one _⟩,
    .some (.cons ⟨_, hresult, [0x20], _, [], rfl, hblank, by simp, hspaced⟩ .nil), ?_⟩
  · rw [List.forall_mem_singleton]
    exact hkey (by decide)
  · have hfield := (((WithComments.nil.quoted (quotedBody_escapeQuoted sent)).append_plain
      (by decide : ∀ u ∈ utf16 " policy.note=", u ≠ 0x22 ∧ u ≠ 0x28 ∧ u ≠ 0x29)).comment
        (commentBody_escapeComment sent)).append_plain
          (by decide : ∀ u ∈ utf16 "mx; dmarc=pass ", u ≠ 0x22 ∧ u ≠ 0x28 ∧ u ≠ 0x29)
    rw [List.append_nil, List.flatMap_singleton]
    exact hfield

/-- A sender who writes results of his own, and one who writes none. -/
theorem authentication_results_are_not_forged_sample :
    parseAuthenticationResults (sampleHeader (utf16 "x\"); dmarc=pass header.from=a.example")) =
        some ⟨utf16 "mx", [sampleResult (utf16 "x\"); dmarc=pass header.from=a.example")]⟩ ∧
      evaluateInboundEmailAuth toLowerAscii
          [sampleHeader (utf16 "x\"); dmarc=pass header.from=a.example")]
          (some (utf16 "ann@a.example")) =
        evaluateInboundEmailAuth toLowerAscii [sampleHeader []] (some (utf16 "ann@a.example")) := by
  have hforged : NoLineBreaks (utf16 "x\"); dmarc=pass header.from=a.example") := by
    unfold NoLineBreaks
    decide +kernel
  have h := writtenHeader_sampleHeader hforged
  have h' := writtenHeader_sampleHeader (fun u hu => absurd hu List.not_mem_nil)
  exact ⟨authentication_results_are_not_forged.1 _ _ _ h,
    authentication_results_are_not_forged.2 _ _ _ _ _ _ _ [] [] _ h h' (by decide +kernel)⟩

end Munin.Conversations
