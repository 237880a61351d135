import Munin.Conversations.LetterCase

/-!
# Markdown for Slack

A message is posted to Slack in Slack's own markup. What is code is put aside first, with a numbered
placeholder in its place; then the text is escaped, its lines are converted, its links and emphasis
are rewritten, and the code is put back.

* **`markdownToMrkdwn`** — the conversion, with a definition for each of its stages.
-/

namespace Munin.Conversations.Slack

open Foundations Regex

/-! ### Control characters -/

/-- A mark for bold text, until the markup is done. -/
def bold : ℕ := 1
/-- A mark for emphasis. -/
def italic : ℕ := 2
/-- What opens the place of a piece of code. -/
def codeOpen : ℕ := 3
/-- What closes it. -/
def codeClose : ℕ := 4

/-- The three characters that Slack reads as its own, as references. -/
def escapeSlackText (text : Utf16Text) : Utf16Text :=
  replaceUnit 0x3e (utf16 "&gt;") (replaceUnit 0x3c (utf16 "&lt;")
    (replaceUnit 0x26 (utf16 "&amp;") text))

/-- The bullets of a list, by its depth. -/
def bullets : List Utf16Text := [utf16 "•", utf16 "◦", utf16 "▪"]

/-- What a group has matched, or nothing. -/
def groupOf (m : Match) (text : Utf16Text) (n : ℕ) : Utf16Text := (m.captured text n).getD []

/-! ### Code -/

/-- A number in decimal digits. -/
def decimalUnits (n : ℕ) : Utf16Text := (Nat.toDigits 10 n).map Char.toNat

/-- The place of a piece of code, by its number. -/
def placeholder (n : ℕ) : Utf16Text := codeOpen :: (decimalUnits n ++ [codeClose])

/-- The text from `i` on with its matches put aside: each leaves the number that its value has in
the store. -/
def stashMatches (text : Utf16Text) (value : Match → Utf16Text) :
    ℕ → List Match → List Utf16Text → Utf16Text × List Utf16Text
  | i, [], store => (text.drop i, store)
  | i, m :: ms, store =>
    let rest := stashMatches text value m.stop ms (store ++ [value m])
    (sliceUnits text i m.start ++ (placeholder store.length ++ rest.1), rest.2)

/-- Fenced code. -/
def fencePattern : Regex := rx "```[^\\n`]*\\n?([\\s\\S]*?)```"

/-- Code in a line. -/
def spanPattern : Regex := rx "`([^`\\n]+)`"

/-- The code of a fenced block, without the line breaks at its ends, -/
def fenceContent (text : Utf16Text) (m : Match) : Utf16Text :=
  replaceAll id (rx "^\\n+|\\n+$") (groupOf m text 1) []

/-- and as it is posted. -/
def fenceValue (text : Utf16Text) (m : Match) : Utf16Text :=
  utf16 "```\n" ++ (escapeSlackText (fenceContent text m) ++ utf16 "\n```")

/-- What stands for code in a line. -/
def spanValue (text : Utf16Text) (m : Match) : Utf16Text :=
  utf16 "`" ++ (escapeSlackText (groupOf m text 1) ++ utf16 "`")

/-- The text with its line breaks as Unix has them. -/
def unixLines (markdown : Utf16Text) : Utf16Text :=
  replaceAll id (rx "\\r\\n") markdown [0x0a]

/-- The text without its fenced blocks, and the blocks. -/
def withoutFences (markdown : Utf16Text) : Utf16Text × List Utf16Text :=
  let text := unixLines markdown
  stashMatches text (fenceValue text) 0 (matchAll id fencePattern text) []

/-- The text without its code, and the code. -/
def stashed (markdown : Utf16Text) : Utf16Text × List Utf16Text :=
  let text := (withoutFences markdown).1
  stashMatches text (spanValue text) 0 (matchAll id spanPattern text) (withoutFences markdown).2

/-! ### Lines -/

/-- The target that Slack can open, if a link has one. -/
def linkTarget (url : Utf16Text) : Option Utf16Text :=
  if (rx "^(https?:|mailto:|tel:)").test asciiCasing.canonicalize url then some url
  else if (rx "^www\\.").test asciiCasing.canonicalize url then some (utf16 "https://" ++ url)
  else if (rx "^[^\\s@]+@[^\\s@]+\\.[^\\s@]+$").test id url then some (utf16 "mailto:" ++ url)
  else none

/-- A link of Slack, if its target is a safe one. -/
def slackLink (url label : Utf16Text) : Utf16Text :=
  match linkTarget url with
  | none => label
  | some target => 0x3c :: (target ++ 0x7c :: (label ++ [0x3e]))

/-- How far a line is indented; a tab is two spaces. -/
def indentWidth (indent : Utf16Text) : ℕ := (replaceUnit 0x09 [0x20, 0x20] indent).length

/-- A rule across the page. -/
def rulePattern : Regex := rx "^ \x7b0,3\x7d([-*_])[ \\t]*(?:\\1[ \\t]*)\x7b2,\x7d$"

/-- A heading. -/
def headingPattern : Regex := rx "^ \x7b0,3\x7d#\x7b1,6\x7d[ \\t]+(.*?)[ \\t]*#*$"

/-- A quoted line, which is escaped by then. -/
def quotePattern : Regex := rx "^ \x7b0,3\x7d&gt;[ \\t]?(.*)$"

/-- An item of a list. -/
def bulletPattern : Regex := rx "^([ \\t]*)[-*+][ \\t]+(.*)$"

/-- The box of a task. -/
def taskPattern : Regex := rx "^\\[([ xX])\\][ \\t]+(.*)$"

/-- The text of a heading, which is bold as a whole. -/
def headingText (text : Utf16Text) : Utf16Text :=
  replaceAll id (rx "__") (replaceAll id (rx "\\*\\*") text []) []

/-- What stands behind a bullet; the box of a task is drawn. -/
def bulletContent (rest : Utf16Text) : Utf16Text :=
  match exec id taskPattern rest with
  | none => rest
  | some task =>
    (if groupOf task rest 1 = [0x20] then utf16 "☐" else utf16 "☑") ++ 0x20 :: groupOf task rest 2

/-- What a line of Markdown becomes. -/
def convertBlockLine (line : Utf16Text) : List Utf16Text :=
  if rulePattern.test id line then []
  else
    match exec id headingPattern line with
    | some heading =>
      let text := headingText (groupOf heading line 1)
      if 0 < text.length then [bold :: (text ++ [bold])] else []
    | none =>
      match exec id quotePattern line with
      | some quote => [utf16 "> " ++ groupOf quote line 1]
      | none =>
        match exec id bulletPattern line with
        | some bullet =>
          let indent := groupOf bullet line 1
          let depth := min (indentWidth indent / 2) (bullets.length - 1)
          [indent ++ (bullets.getD depth [] ++ 0x20 :: bulletContent (groupOf bullet line 2))]
        | none => [line]

/-- The text with its lines converted. -/
def blocks (markdown : Utf16Text) : Utf16Text :=
  let lines := (escapeSlackText (stashed markdown).1).splitOn 0x0a
  replaceAll id (rx "\\n\x7b3,\x7d") ([0x0a].intercalate (lines.flatMap convertBlockLine))
    [0x0a, 0x0a]

/-! ### Links and emphasis -/

/-- A bare link, which is escaped by then. -/
def autolinkPattern : Regex := rx "&lt;(https?:\\/\\/[^\\s|&]+)&gt;"

/-- An image. -/
def imagePattern : Regex :=
  rx "!\\[([^\\]\\n]*)\\]\\(\\s*([^)\\s]+?)(?:\\s+\"[^\"\\n]*\")?\\s*\\)"

/-- A link with its label. -/
def linkPattern : Regex :=
  rx "\\[([^\\]\\n]*)\\]\\(\\s*([^)\\s]+?)(?:\\s+\"[^\"\\n]*\")?\\s*\\)"

/-- What is written for a match of an expression with one group. -/
def around (opening closing text : Utf16Text) (m : Match) : Utf16Text :=
  opening ++ (groupOf m text 1 ++ closing)

/-- Bare links put back. -/
def autolinked (text : Utf16Text) : Utf16Text :=
  replaceAllWith id autolinkPattern text (around [0x3c] [0x3e] text)

/-- A link or an image: the target stands for a label that is empty. -/
def linkValue (text : Utf16Text) (m : Match) : Utf16Text :=
  let label := groupOf m text 1
  let url := groupOf m text 2
  slackLink url (if label = [] then url else label)

/-- Images as links. -/
def imaged (text : Utf16Text) : Utf16Text :=
  replaceAllWith id imagePattern text (linkValue text)

/-- Links as those of Slack. -/
def linked (text : Utf16Text) : Utf16Text :=
  replaceAllWith id linkPattern text (linkValue text)

/-- Bold text. -/
def boldPattern : Regex := rx "\\*\\*(?=\\S)([\\s\\S]*?\\S)\\*\\*"

/-- Bold text between underscores. -/
def underscorePattern : Regex := rx "(?<![\\w\\\\])__(?=\\S)([\\s\\S]*?\\S)__(?!\\w)"

/-- Text that is struck out. -/
def strikePattern : Regex := rx "~~(?=\\S)([\\s\\S]*?\\S)~~"

/-- Emphasis. -/
def italicPattern : Regex := rx "(?<![\\w*\\\\])\\*(?=[^\\s*])([^*\\n]*[^\\s*]|)\\*(?!\\w)"

/-- A character behind a backslash. -/
def escapePattern : Regex := rx "\\\\([\\\\`*_~[\\]()#+\\-.!>])"

/-- Bold text marked. -/
def boldened (text : Utf16Text) : Utf16Text :=
  replaceAllWith id boldPattern text (around [bold] [bold] text)

/-- Bold text between underscores marked. -/
def underscored (text : Utf16Text) : Utf16Text :=
  replaceAllWith id underscorePattern text (around [bold] [bold] text)

/-- Struck text between single tildes. -/
def struck (text : Utf16Text) : Utf16Text :=
  replaceAllWith id strikePattern text (around [0x7e] [0x7e] text)

/-- Emphasis marked. -/
def italicized (text : Utf16Text) : Utf16Text :=
  replaceAllWith id italicPattern text (around [italic] [italic] text)

/-- Backslashes dropped. -/
def unescaped (text : Utf16Text) : Utf16Text :=
  replaceAllWith id escapePattern text (around [] [] text)

/-- The text with its emphasis rewritten. -/
def emphasized (text : Utf16Text) : Utf16Text :=
  unescaped (italicized (struck (underscored (boldened text))))

/-! ### The conversion -/

/-- `Number(digits)`, for decimal digits. -/
def numberOfDigits (digits : Utf16Text) : ℕ := Nat.ofDigitChars 10 (digits.map Char.ofNat) 0

/-- The place of a piece of code. -/
def placeholderPattern : Regex := rx "\x03(\\d+)\x04"

/-- The text with its code put back. -/
def restored (code : List Utf16Text) (text : Utf16Text) : Utf16Text :=
  replaceAllWith id placeholderPattern text fun m =>
    (code[numberOfDigits (groupOf m text 1)]?).getD []

/-- The text with its markers written as Slack has them. -/
def marked (text : Utf16Text) : Utf16Text :=
  replaceUnit italic [0x5f] (replaceUnit bold [0x2a] text)

/-- The text in Slack's markup, but for its code. -/
def rewritten (markdown : Utf16Text) : Utf16Text :=
  emphasized (linked (imaged (autolinked (blocks markdown))))

/-- A message for Slack. -/
def markdownToMrkdwn (markdown : Utf16Text) : Utf16Text :=
  marked (restored (stashed markdown).2 (rewritten markdown))

end Munin.Conversations.Slack
