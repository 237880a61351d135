import Munin.Conversations.LetterCase
import Munin.Foundations.HtmlAttributes

/-!
# Markdown from HTML

A model that is asked for Markdown sometimes answers in HTML. The reply is cleaned up: its known tags
become Markdown, what is code stays as it is, and an answer without known tags is not touched.

* **`sourceSteps`** — an answer as texts, known tags and code, in order.
* **`MarkdownBuilder`** — the reply while it is written, with one function for each of its methods.
* **`htmlToMarkdown`** — the clean-up.
-/

namespace Munin.Agent.Html

open Foundations Regex Conversations

/-! ### Tags -/

/-- `TAG_RE`: a tag, with its slash, name and attributes. -/
def tagPattern : Regex := rx "<(\\/?)([a-zA-Z][a-zA-Z0-9]*)\\b([^<>]*?)\\/?>"

/-- `CODE_RE`: code in Markdown, fenced or inline. -/
def codePattern : Regex := rx "(```[\\s\\S]*?(?:```|$)|`[^`\\n]+`)"

/-- Tags that stand apart by an empty line. -/
def paragraphTags : List Utf16Text := ["p", "pre", "blockquote", "hr"].map utf16

/-- Tags that begin a line. -/
def lineTags : List Utf16Text := ["div", "section", "article", "header", "footer"].map utf16

/-- Tags of lists. -/
def listTags : List Utf16Text := ["ul", "ol"].map utf16

/-- `HEADING_RE`. -/
def isHeading (name : Utf16Text) : Bool := (rx "^h[1-6]$").test id name

/-- Tags of bold text. -/
def strongTags : List Utf16Text := ["strong", "b"].map utf16

/-- Tags of emphasis. -/
def emTags : List Utf16Text := ["em", "i"].map utf16

/-- Tags of which only the content is kept. -/
def stripTags : List Utf16Text :=
  ["span", "u", "font", "small", "mark", "sup", "sub", "html", "body"].map utf16

/-- Whether the clean-up knows a tag. -/
def isKnownTag (name : Utf16Text) : Bool :=
  name ∈ paragraphTags || name ∈ lineTags || name ∈ listTags || isHeading name ||
    name ∈ strongTags || name ∈ emTags || name ∈ stripTags || name = utf16 "li" ||
    name = utf16 "br" || name = utf16 "a" || name = utf16 "code"

/-! ### Entities and targets -/

/-- `NAMED_ENTITIES`. -/
def namedEntities : List (Utf16Text × Utf16Text) :=
  [("nbsp", " "), ("amp", "&"), ("lt", "<"), ("gt", ">"), ("quot", "\""), ("apos", "'"),
    ("ndash", "–"), ("mdash", "—"), ("hellip", "…")].map fun entry => (utf16 entry.1, utf16 entry.2)

/-- What a lookup finds that the table has from its prototype: the text of a function. -/
def inheritedNames : List (Utf16Text × Utf16Text) :=
  [(utf16 "constructor", utf16 "function Object() \x7b [native code] \x7d")]

/-- A reference, in a text in lower case. -/
def entityPattern : Regex := rx "&(#x[0-9a-f]+|#[0-9]+|[a-z]+);"

/-- What a reference becomes, with a table of names. -/
def decodeEntity (names : List (Utf16Text × Utf16Text)) (whole ref : Utf16Text) : Utf16Text :=
  if ref.head? = some 0x23 then
    let code := if unitAt ref 1 = 0x78 ∨ unitAt ref 1 = 0x58 then
      numberOf 16 (ref.drop 2) else numberOf 10 (ref.drop 1)
    if 0 < code ∧ code ≤ 0x10ffff then pointUnits code else whole
  else (names.lookup (asciiCasing.lower ref)).getD whole

/-- What a group has matched, or nothing. -/
def groupOf (m : Match) (text : Utf16Text) (n : ℕ) : Utf16Text := (m.captured text n).getD []

/-- A text with its references decoded. -/
def decodeNames (names : List (Utf16Text × Utf16Text)) (s : Utf16Text) : Utf16Text :=
  replaceAllWith asciiCasing.canonicalize entityPattern s fun m =>
    decodeEntity names (sliceUnits s m.start m.stop) (groupOf m s 1)

/-- A text with its references decoded. -/
def decodeEntities (s : Utf16Text) : Utf16Text := decodeNames (namedEntities ++ inheritedNames) s

/-- The schemes that a link may have. -/
def safeHref : Regex := rx "^(https?:|mailto:|tel:)"

/-- The `href` of a tag, quoted or not. -/
def hrefPattern : Regex := rx "\\bhref\\s*=\\s*(?:\"([^\"]*)\"|'([^']*)'|([^\\s>]+))"

/-- The target of a link, if it is a safe one. -/
def readHref (attrs : Utf16Text) : Option Utf16Text :=
  let raw := match exec asciiCasing.canonicalize hrefPattern attrs with
    | none => []
    | some m => ((m.captured attrs 1).or ((m.captured attrs 2).or (m.captured attrs 3))).getD []
  let href := trimUnits (decodeEntities raw)
  if safeHref.test asciiCasing.canonicalize href then some href else none

/-! ### The parts of an answer -/

/-- A part of an answer: between code, or code. -/
inductive Part where
  | segment (text : Utf16Text)
  | code (text : Utf16Text)

/-- The parts from `i` on. -/
def partsFrom (source : Utf16Text) : ℕ → List Match → List Part
  | i, [] => [.segment (source.drop i)]
  | i, m :: ms =>
    .segment (sliceUnits source i m.start) :: .code (groupOf m source 1) ::
      partsFrom source m.stop ms

/-- `source.split(CODE_RE)`: what is matched is kept, at the odd places. -/
def parts (source : Utf16Text) : List Part :=
  partsFrom source 0 (matchAll id codePattern source)

/-- The name of a tag. -/
def tagName (m : Match) (segment : Utf16Text) : Utf16Text :=
  asciiCasing.lower (groupOf m segment 2)

/-- Whether an answer has a known tag outside its code. -/
def hasKnownTag (parts : List Part) : Bool :=
  parts.any fun
    | .segment text => (matchAll id tagPattern text).any fun m => isKnownTag (tagName m text)
    | .code _ => false

/-- What the builder is given: a text between known tags, a known tag, or code. -/
inductive Step where
  | text (raw : Utf16Text)
  | tag (closing : Bool) (name attrs : Utf16Text)
  | code (text : Utf16Text)

/-- The steps of a segment from `last` on. -/
def stepsFrom (segment : Utf16Text) : ℕ → List Match → List Step
  | last, [] => [.text (segment.drop last)]
  | last, m :: ms =>
    let name := tagName m segment
    if isKnownTag name then
      .text (sliceUnits segment last m.start) ::
        .tag (groupOf m segment 1 = [0x2f]) name (groupOf m segment 3) ::
          stepsFrom segment m.stop ms
    else stepsFrom segment last ms

/-- The steps of a part: code is one. -/
def partSteps : Part → List Step
  | .segment text => stepsFrom text 0 (matchAll id tagPattern text)
  | .code text => [.code text]

/-- The steps of an answer. -/
def sourceSteps (source : Utf16Text) : List Step := (parts source).flatMap partSteps

/-! ### The builder -/

/-- A list that is open. -/
structure ListFrame where
  ordered : Bool
  counter : ℕ
  indent : Utf16Text
  markerWidth : ℕ

/-- A link that is open: where its label begins, and its target. -/
structure Link where
  start : ℕ
  href : Option Utf16Text

/-- The reply while it is written. The innermost list and link come first. -/
structure MarkdownBuilder where
  out : Utf16Text := []
  pendingBreak : ℕ := 0
  pendingOpen : Utf16Text := []
  skipLeadingSpace : Bool := false
  lists : List ListFrame := []
  links : List Link := []

namespace MarkdownBuilder

variable (b : MarkdownBuilder)

/-- Writes the breaks and marks that are pending. -/
def flush : MarkdownBuilder :=
  let breaks := if 0 < b.pendingBreak ∧ 0 < b.out.length then List.replicate b.pendingBreak 0x0a
    else []
  { b with out := b.out ++ (breaks ++ b.pendingOpen), pendingBreak := 0, pendingOpen := [] }

/-- Drops the white space at the end. -/
def trimEnd : MarkdownBuilder := { b with out := replaceFirst id (rx "\\s+$") b.out [] }

/-- What of a text is written: on one line in a list, and without blanks where a line begins. -/
def textToWrite (raw : Utf16Text) : Utf16Text :=
  let s := if 0 < b.lists.length then replaceAll id (rx "\\s*\\n\\s*") raw [0x20] else raw
  if 0 < b.pendingBreak ∨ b.pendingOpen ≠ [] ∨ b.skipLeadingSpace = true then
    replaceFirst id (rx "^\\s+") s []
  else s

/-- Writes a text, unless nothing is left of it. -/
def text (raw : Utf16Text) : MarkdownBuilder :=
  let s := b.textToWrite raw
  if s = [] then b else { b.flush with out := b.flush.out ++ s, skipLeadingSpace := false }

/-- Whether a list is open. -/
def inList : Bool := 0 < b.lists.length

/-- Writes code as it is. -/
def verbatim (s : Utf16Text) : MarkdownBuilder := { b.flush with out := b.flush.out ++ s }

/-- Ends the line, with so many breaks before what comes next. -/
def block (newlines : ℕ) : MarkdownBuilder :=
  { b.trimEnd with pendingOpen := [], pendingBreak := max b.pendingBreak newlines }

/-- A break; in a list it is a space. -/
def lineBreak : MarkdownBuilder :=
  if 0 < b.lists.length then { b.trimEnd with out := b.trimEnd.out ++ [0x20] }
  else { b.trimEnd with pendingBreak := min (b.pendingBreak + 1) 2 }

/-- A mark that is written when text follows. -/
def openMark (marker : Utf16Text) : MarkdownBuilder :=
  { b with pendingOpen := b.pendingOpen ++ marker }

/-- The blanks at the end of the reply. -/
def trailing : Utf16Text :=
  ((exec id (rx "\\s*$") b.out).map fun m => sliceUnits b.out m.start m.stop).getD []

/-- Closes a mark; one that is still pending is dropped. -/
def closeMark (marker : Utf16Text) : MarkdownBuilder :=
  if marker <:+ b.pendingOpen then
    { b with pendingOpen := b.pendingOpen.take (b.pendingOpen.length - marker.length) }
  else
    { b with out := b.out.take (b.out.length - b.trailing.length) ++ (marker ++ b.trailing) }

/-- Opens a list, nested in the one around it. -/
def openList (ordered : Bool) : MarkdownBuilder :=
  match b.lists with
  | [] => { b.block 2 with lists := [⟨ordered, 0, [], 0⟩] }
  | parent :: _ =>
    { b with lists :=
        ⟨ordered, 0, parent.indent ++ List.replicate parent.markerWidth 0x20, 0⟩ :: b.lists }

/-- Closes the innermost list. -/
def closeList : MarkdownBuilder :=
  let b := { b with lists := b.lists.tail }
  b.block (if b.lists.length = 0 then 2 else 1)

/-- The mark of the next item of a list. -/
def ListFrame.marker (frame : ListFrame) : Utf16Text :=
  if frame.ordered then utf16 (toString (frame.counter + 1)) ++ utf16 ". " else utf16 "- "

/-- Begins an item with its bullet or number. -/
def listItem : MarkdownBuilder :=
  match b.lists with
  | [] => { (b.block 1).verbatim (utf16 "- ") with skipLeadingSpace := true }
  | frame :: lists =>
    let marker := ListFrame.marker frame
    let counted := { frame with counter := frame.counter + 1, markerWidth := marker.length }
    let b := { b with lists := counted :: lists }
    { (b.block 1).verbatim (frame.indent ++ marker) with skipLeadingSpace := true }

/-- Begins a link, at the place where its text starts. -/
def openLink (href : Option Utf16Text) : MarkdownBuilder :=
  { b.flush with links := ⟨b.flush.out.length, href⟩ :: b.links }

/-- A link with its label. -/
def linkText (href : Option Utf16Text) (label : Utf16Text) : Utf16Text :=
  match href with
  | none | some [] => label
  | some href =>
    if label = [] ∨ label = href ∨ utf16 "mailto:" ++ label = href then href
    else utf16 "[" ++ (label ++ (utf16 "](" ++ (href ++ utf16 ")")))

/-- Puts the link around its text, if it has a target. -/
def closeLink : MarkdownBuilder :=
  match b.links with
  | [] => b
  | link :: links =>
    let label := trimUnits (b.out.drop link.start)
    { b with links := links, out := b.out.take link.start ++ linkText link.href label }

/-- The reply, with at most one empty line in a row. -/
def result : Utf16Text :=
  trimUnits (replaceAll id (rx "\\n\x7b3,\x7d") (replaceAll id (rx "[ \\t]+\\n") b.out [0x0a])
    [0x0a, 0x0a])

/-- What a known tag does. -/
def convertTag (closing : Bool) (name attrs : Utf16Text) : MarkdownBuilder :=
  if name = utf16 "br" ∨ (name ∈ paragraphTags ∨ name ∈ lineTags) ∧ b.inList = true then
    b.lineBreak
  else if name ∈ paragraphTags then b.block 2
  else if name ∈ lineTags then b.block 1
  else if name ∈ listTags then
    if closing then b.closeList else b.openList (name = utf16 "ol")
  else if name = utf16 "li" then
    if closing then b else b.listItem
  else if isHeading name then
    if closing then (b.closeMark (utf16 "**")).block 2 else (b.block 2).openMark (utf16 "**")
  else if name ∈ strongTags then
    if closing then b.closeMark (utf16 "**") else b.openMark (utf16 "**")
  else if name ∈ emTags then
    if closing then b.closeMark (utf16 "*") else b.openMark (utf16 "*")
  else if name = utf16 "code" then b.verbatim (utf16 "`")
  else if name = utf16 "a" then
    if closing then b.closeLink else b.openLink (readHref attrs)
  else b

/-- What a step writes. -/
def step : Step → MarkdownBuilder
  | .text raw => b.text (decodeEntities raw)
  | .tag closing name attrs => b.convertTag closing name attrs
  | .code text => b.verbatim text

end MarkdownBuilder

/-- The clean-up: an answer without known tags stays as it is. -/
def htmlToMarkdown (source : Utf16Text) : Utf16Text :=
  if hasKnownTag (parts source) then
    ((sourceSteps source).foldl MarkdownBuilder.step {}).result
  else source

end Munin.Agent.Html
