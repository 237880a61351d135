import Munin.Foundations.Regex

/-!
# Quoted history in a reply

The text of an email reply goes on, below what was written, with what it answers. Four finders are
tried for the place where that begins: a line that introduces a quotation, a block of headers, a
run of quoted lines at the end, and such a run above a signature. What is above the place is kept,
and so is a signature below it.

* **`stripQuotedReplyText`** — the text without the quoted history.
* **`KeptAround`** — what it returns: lines from the top, trimmed, and perhaps a signature from
  further below, an empty line between them.
* **`stripQuotedReplyText_keeps`** — so what it returns says nothing that the text does not say, in
  the same order; and a text is not stripped to nothing, unless it is cut at its first line and no
  signature is put back.
-/

namespace Munin.Conversations

open Foundations

/-- How the language changes the case of letters. -/
structure Casing where
  /-- The upper case of a unit, where that is a single unit; otherwise the unit itself. -/
  upper : ℕ → ℕ
  /-- `text.toLowerCase()`. -/
  lower : Utf16Text → Utf16Text

/-- What the flag `i` compares: upper cases, except that no other unit becomes an ASCII one. -/
def Casing.canonicalize (casing : Casing) (u : ℕ) : ℕ :=
  if 128 ≤ u ∧ casing.upper u < 128 then u else casing.upper u

/-- A pattern with its flag `i`. -/
structure Pattern where
  re : Regex
  ignoreCase : Bool

/-- How a pattern compares letters. -/
def Pattern.canonicalize (casing : Casing) (p : Pattern) : ℕ → ℕ :=
  if p.ignoreCase then casing.canonicalize else id

/-- Whether a pattern is in a text. -/
def Pattern.test (casing : Casing) (p : Pattern) (text : Utf16Text) : Bool :=
  p.re.test (p.canonicalize casing) text

/-- `/…/` -/
def asWritten (pattern : String) : Pattern := ⟨rx pattern, false⟩

/-- `/…/i` -/
def anyCase (pattern : String) : Pattern := ⟨rx pattern, true⟩

/-! ### Tables

The patterns are as the source has them; a brace in a pattern is written `\x7b` or `\x7d`. -/

/-- Lines that say who wrote what is quoted below. -/
def quoteAttributionPatterns : List Pattern :=
  [anyCase "^on .+ wrote:\\s*$",
    anyCase "^op .+ schreef .+:\\s*$",
    anyCase "^den .+ skrev .+:\\s*$",
    anyCase "^den .+ skreiv .+:\\s*$",
    anyCase "^þann .+ skrifaði .+:\\s*$",
    anyCase "^.+ kirjoitti:\\s*$",
    anyCase "^le .+ a écrit\\s*:\\s*$",
    anyCase "^am .+ schrieb .+:\\s*$",
    anyCase "^el .+ escribió\\s*:\\s*$",
    anyCase "^em .+ escreveu\\s*:\\s*$",
    anyCase "^il .+ ha scritto\\s*:\\s*$",
    anyCase "^w dniu .+ napisał(?:\\(a\\))?\\s*:\\s*$",
    anyCase "^.+ napsal(?:\\(a\\))?\\s*:\\s*$",
    anyCase "^.+ tarihinde .+ yazdı\\s*:\\s*$",
    anyCase "^.+ написал[аои]?\\s*:\\s*$",
    anyCase "^στις .+ έγραψε.*:\\s*$",
    asWritten "^在 .+ 写道[：:]\\s*$",
    asWritten "^於 .+ 寫道[：:]\\s*$",
    asWritten "^.+ さんが.*書き(?:ました|込みました)[:：]?\\s*$",
    asWritten "^.+ 작성:\\s*$"]

/-- Lines that stand between a reply and what is quoted. -/
def quoteSeparatorPatterns : List Pattern :=
  [anyCase "^-\x7b2,\x7d\\s*original\\s+message\\s*-\x7b2,\x7d\\s*$",
    anyCase "^-\x7b2,\x7d\\s*opprinnelig\\s+melding\\s*-\x7b2,\x7d\\s*$",
    anyCase "^-\x7b2,\x7d\\s*original\\s+meddelelse\\s*-\x7b2,\x7d\\s*$",
    anyCase "^-\x7b2,\x7d\\s*ursprüngliche\\s+nachricht\\s*-\x7b2,\x7d\\s*$",
    anyCase "^-\x7b2,\x7d\\s*mensaje\\s+original\\s*-\x7b2,\x7d\\s*$",
    anyCase "^-\x7b2,\x7d\\s*message\\s+original\\s*-\x7b2,\x7d\\s*$",
    anyCase "^-\x7b2,\x7d\\s*messaggio\\s+originale\\s*-\x7b2,\x7d\\s*$",
    anyCase "^\\s*forwarded\\s+message\\s*:?\\s*$",
    asWritten "^_\x7b5,\x7d\\s*$"]

/-- Lines with which a quote begins. -/
def quoteHeaderPatterns : List Pattern := quoteAttributionPatterns ++ quoteSeparatorPatterns

/-- The marks of a quoted line. -/
def quoteMarker : Regex := rx "^(?:>\\s?)+"

/-- What is left of an attribution on the next line. -/
def wrappedAddressTail : Pattern := asWritten "^>\\s*:$"

/-- A time of day. -/
def timeOfDay : Pattern := asWritten "\\d\x7b1,2\x7d[.:]\\d\x7b2\x7d"

/-- The verb of an attribution that begins with a date. -/
def dateFirstQuoteVerb : Pattern := anyCase "\\b(?:skrev|skreiv|skrifaði|kirjoitti)\\b"

/-- The longest line that may be an attribution. -/
def maxQuoteHeaderLength : ℕ := 200

/-- Lines that only forwarded messages have. -/
def declaredForwardMarkers : List Pattern :=
  [anyCase "^\\s*-\x7b2,\x7d\\s*forwarded message\\s*-\x7b2,\x7d\\s*$",
    anyCase "^\\s*-\x7b2,\x7d\\s*videresendt melding\\s*-\x7b2,\x7d\\s*$",
    anyCase "^\\s*-\x7b2,\x7d\\s*vidarebefordrat meddelande\\s*-\x7b2,\x7d\\s*$",
    anyCase "^\\s*-\x7b2,\x7d\\s*weitergeleitete nachricht\\s*-\x7b2,\x7d\\s*$",
    anyCase "^\\s*begin forwarded message:\\s*$",
    anyCase "^\\s*videresendt melding:\\s*$"]

/-- Lines that forwarded messages and replies have. -/
def ambiguousForwardMarkers : List Pattern :=
  [anyCase "^\\s*-\x7b2,\x7d\\s*original message\\s*-\x7b2,\x7d\\s*$",
    anyCase "^\\s*-\x7b2,\x7d\\s*opprinnelig melding\\s*-\x7b2,\x7d\\s*$",
    asWritten "^\\s*_\x7b10,\x7d\\s*$"]

/-- How the subject of a forwarded message begins. -/
def forwardSubjectPrefix : Pattern := anyCase "^\\s*(fwd?|vs|vb|vidsend|wg|tr|rv|enc)\\s*:"

/-- Labels of the sender. -/
def fromLabels : List String :=
  ["from", "fra", "från", "frá", "von", "de", "da", "van", "od", "lähettäjä", "mittente",
    "remitente", "nadawca", "odesílatel", "kimden", "gönderen", "от", "отправитель", "από"]

/-- Labels of the recipients. -/
def toLabels : List String :=
  ["to", "til", "till", "an", "à", "a", "para", "aan", "do", "komu", "vastaanottaja",
    "destinatario", "destinatário", "adresat", "kime", "alıcı", "кому", "προς"]

/-- Labels of the date. -/
def dateLabels : List String :=
  ["date", "sent", "dato", "sendt", "datum", "skickat", "gesendet", "envoyé", "enviado", "inviato",
    "verzonden", "wysłano", "odesláno", "päivämäärä", "lähetetty", "data", "tarih", "дата",
    "отправлено", "ημερομηνία"]

/-- Labels of the subject. -/
def subjectLabels : List String :=
  ["subject", "emne", "ämne", "efni", "betreff", "objet", "asunto", "assunto", "oggetto",
    "onderwerp", "temat", "předmět", "aihe", "konu", "тема", "θέμα"]

/-- Labels of those in copy. -/
def ccLabels : List String := ["cc", "kopi", "kopia", "kopie", "copia", "копия"]

/-- A line with one of the labels, and its value. -/
def buildLabelPattern (labels : List String) : Pattern :=
  anyCase ("^(?:" ++ String.intercalate "|" labels ++ ")\\s*:\\s*(.*)$")

/-- The longest line that may be a header. -/
def maxHeaderLineChars : ℕ := 400

/-- How many lines of headers are read. -/
def maxHeaderBlockScan : ℕ := 6

/-- How many other headers a sender needs. -/
def minCompanionLabels : ℕ := 2

/-- The scheme before an address. -/
def mailtoPrefix : Pattern := anyCase "\\bmailto:"

/-- An address in a value. -/
def addressPattern : Regex := rx "([^\\s<>@,;\"']+@[^\\s<>@,;\"']+\\.[^\\s<>@,;\"']+)"

/-- Lines with which a signature begins. -/
def signatureOpeners : List Pattern :=
  [asWritten "^--\\s?$",
    asWritten "^_\x7b5,\x7d$",
    asWritten "^=\x7b5,\x7d$",
    anyCase "^sent from my (iphone|ipad|ipod|android|.+\\bphone|.+\\btablet)\\b",
    anyCase "^sent from outlook( for ios| for android| mobile)?\\b",
    anyCase "^get outlook for (ios|android)\\b",
    anyCase "^sent via samsung\\b",
    anyCase "^sendt fra (min )?(iphone|ipad|outlook|mobil|android)\\b",
    anyCase "^skickat från min (iphone|ipad|outlook|mobil|android)\\b",
    anyCase "^skicka(t|d) från outlook( för ios| för android| mobile)?\\b",
    anyCase "^hae outlook (iossille|androidille)\\b",
    anyCase "^lähetetty (iphonesta|ipadista|outlookista|androidista)\\b",
    anyCase "^sent (úr|frá) (iphone|ipad)\\b",
    anyCase "^envoyé de mon (iphone|ipad)\\b",
    anyCase "^enviado desde mi (iphone|ipad)\\b",
    anyCase "^enviado do meu (iphone|ipad)\\b",
    anyCase "^inviato da(l mio)? (iphone|ipad)\\b",
    anyCase "^verzonden vanaf mijn (iphone|ipad)\\b",
    anyCase "^von meinem (iphone|ipad) gesendet\\b",
    anyCase "^wysłane z mojego (iphone|ipad)\\b",
    anyCase "^odesláno z (mého|méno) (iphonu|ipadu)\\b",
    anyCase "^iphone'?umdan gönderildi",
    anyCase "^outlook for (ios|android)'?(dan|den) gönderildi",
    anyCase "^отправлено (с|из) (iphone|ipad)",
    anyCase "^发自我的(iphone|ipad)",
    anyCase "^自(iphone|ipad)发送",
    anyCase "^自我的(iphone|ipad)",
    anyCase "^iphoneから送信",
    anyCase "^내 (iphone|ipad)에서 보냄"]

/-- Every pattern is an expression. -/
example : ∀ p ∈ ["^on .+ wrote:\\s*$", "\\d\x7b1,2\x7d[.:]\\d\x7b2\x7d", "^iphone'?umdan gönderildi",
    "^.+ さんが.*書き(?:ました|込みました)[:：]?\\s*$", "^(?:from|fra)\\s*:\\s*(.*)$",
    "([^\\s<>@,;\"']+@[^\\s<>@,;\"']+\\.[^\\s<>@,;\"']+)"],
    (Regex.parse p).isSome = true := by
  decide +kernel

/-! ### Lines -/

/-- A line without the carriage return at its end. -/
def chopReturn (line : Utf16Text) : Utf16Text :=
  if line.getLast? = some 0x0d then line.dropLast else line

/-- The pieces of a text between line feeds, those before a line feed without the carriage return
at their end. -/
def chopReturns : List Utf16Text → List Utf16Text
  | [] => []
  | [line] => [line]
  | line :: lines => chopReturn line :: chopReturns lines

/-- `body.split(/\r?\n/)`. -/
def bodyLines (body : Utf16Text) : List Utf16Text := chopReturns (body.splitOn 0x0a)

/-- `lines.join('\n')`. -/
def joinLines (lines : List Utf16Text) : Utf16Text := [0x0a].intercalate lines

/-- `text.replace(/\s+$/g, '')`. -/
def trimEndUnits (text : Utf16Text) : Utf16Text := text.rdropWhile isBlankUnit

/-- What is known of the message besides its text; `forwardedSender` may be unknown or none. -/
structure QuoteContext where
  forwardedSender : Option (Option Utf16Text) := none
  subject : Option Utf16Text := none

section

variable (casing : Casing)

/-- Whether the last `<` of a line is still open. -/
def hasUnclosedAngle (line : Utf16Text) : Bool :=
  match lastIndexOf [0x3c] line line.length with
  | none => false
  | some i => (indexOf [0x3e] line i).isNone

/-- Joins an attribution with the tail of it on the next line. -/
def unwrapAttributionBreaks : List Utf16Text → List Utf16Text
  | line :: next :: lines =>
    if hasUnclosedAngle line && wrappedAddressTail.test casing (trimUnits next) then
      (line ++ trimUnits next) :: unwrapAttributionBreaks lines
    else line :: unwrapAttributionBreaks (next :: lines)
  | lines => lines

/-! ### The finders -/

/-- Whether a quote begins with a line. -/
def isQuoteHeaderLine (line : Utf16Text) : Bool :=
  let text := trimUnits (quoteMarker.replaceFirst id line [])
  if text = [] ∨ maxQuoteHeaderLength < text.length then false
  else quoteHeaderPatterns.any (·.test casing text) ||
    (text.getLast? == some 0x3a && timeOfDay.test casing text &&
      dateFirstQuoteVerb.test casing text)

/-- The kinds of line that introduce a forwarded message. -/
inductive ForwardMarkerKind where
  | declared
  | ambiguous

/-- What a line says of a forwarded message. -/
def forwardMarkerKind (line : Utf16Text) : Option ForwardMarkerKind :=
  if declaredForwardMarkers.any (·.test casing line) then some .declared
  else if ambiguousForwardMarkers.any (·.test casing line) then some .ambiguous
  else none

/-- Whether the subject is one of a forwarded message. -/
def subjectDeclaresForward (subject : Option Utf16Text) : Bool :=
  forwardSubjectPrefix.test casing (subject.getD [])

/-- Whether one of the lines is not blank. -/
def someInk (lines : List Utf16Text) : Bool := lines.any fun line => trimUnits line ≠ []

/-- The loop of `findQuoteHeaderCut`, at line `i` of `lines`. -/
def findQuoteHeaderCutFrom (lines : List Utf16Text) (context : QuoteContext) :
    ℕ → List Utf16Text → Option ℕ
  | _, [] => none
  | i, line :: rest =>
    if !isQuoteHeaderLine casing line then findQuoteHeaderCutFrom lines context (i + 1) rest
    else if subjectDeclaresForward casing context.subject &&
        (forwardMarkerKind casing line).isSome then
      findQuoteHeaderCutFrom lines context (i + 1) rest
    else if !someInk (lines.take i) then none
    else some i

/-- Where the first quote begins. -/
def findQuoteHeaderCut (lines : List Utf16Text) (context : QuoteContext) : Option ℕ :=
  findQuoteHeaderCutFrom casing lines context 0 lines

/-- A block of headers in the text. -/
structure QuotedHeaderBlock where
  start : ℕ
  stop : ℕ
  sender : Utf16Text
  recipient : Option Utf16Text
  date : Option Utf16Text
  subject : Option Utf16Text

/-- The value of a header. -/
def matchLabel (line : Utf16Text) (pattern : Pattern) : Option Utf16Text :=
  let text := trimUnits line
  if text = [] ∨ maxHeaderLineChars < text.length then none
  else
    match pattern.re.exec (pattern.canonicalize casing) text with
    | none => none
    | some m =>
      let value := trimUnits ((m.captured text 1).getD [])
      if value = [] then none else some value

/-- What the lines below a sender have given. -/
structure Companions where
  recipient : Option Utf16Text := none
  date : Option Utf16Text := none
  subject : Option Utf16Text := none
  count : ℕ := 0
  stop : ℕ

/-- The loop of `readHeaderBlock`, at line `i`. -/
def readCompanions : ℕ → List Utf16Text → Companions → Companions
  | _, [], found => found
  | i, line :: rest, found =>
    if trimUnits line = [] then readCompanions (i + 1) rest found
    else
      let nextTo := matchLabel casing line (buildLabelPattern toLabels)
      let nextDate := matchLabel casing line (buildLabelPattern dateLabels)
      let nextSubject := matchLabel casing line (buildLabelPattern subjectLabels)
      let nextCc := matchLabel casing line (buildLabelPattern ccLabels)
      if nextTo = none ∧ nextDate = none ∧ nextSubject = none ∧ nextCc = none then found
      else
        readCompanions (i + 1) rest
          { recipient := found.recipient <|> nextTo
            date := found.date <|> nextDate
            subject := found.subject <|> nextSubject
            count := found.count + 1
            stop := i + 1 }

/-- The headers from a line on, if they begin with a sender. -/
def readHeaderBlock (lines : List Utf16Text) (index : ℕ) : Option QuotedHeaderBlock :=
  match matchLabel casing (lines.getD index []) (buildLabelPattern fromLabels) with
  | none => none
  | some sender =>
    let found := readCompanions casing (index + 1)
      ((lines.drop (index + 1)).take maxHeaderBlockScan) { stop := index + 1 }
    if found.count < minCompanionLabels then none
    else some ⟨index, found.stop, sender, found.recipient, found.date, found.subject⟩

/-- The loop of `findHeaderBlocks`; it moves on by a line at least. -/
def findHeaderBlocksFrom (lines : List Utf16Text) : ℕ → ℕ → List QuotedHeaderBlock
  | 0, _ => []
  | fuel + 1, i =>
    if i < lines.length then
      match readHeaderBlock casing lines i with
      | none => findHeaderBlocksFrom lines fuel (i + 1)
      | some block => block :: findHeaderBlocksFrom lines fuel block.stop
    else []

/-- All blocks of headers. -/
def findHeaderBlocks (lines : List Utf16Text) : List QuotedHeaderBlock :=
  findHeaderBlocksFrom casing lines lines.length 0

/-- The kind of the last line above `start` that is not blank. -/
def markerAbove (lines : List Utf16Text) (start : ℕ) : Option ForwardMarkerKind :=
  ((lines.take start).reverse.find? fun line => trimUnits line ≠ []).bind
    (forwardMarkerKind casing)

/-- The addresses of a value. -/
def parseAddressList (value : Utf16Text) : List Utf16Text :=
  let cleaned := mailtoPrefix.re.replaceAll (mailtoPrefix.canonicalize casing) value []
  (addressPattern.matchAll id cleaned).map fun m => casing.lower ((m.captured cleaned 1).getD [])

/-- Whether a block is that of a forwarded message. -/
def introducesForwardedMessage (lines : List Utf16Text) (block : QuotedHeaderBlock)
    (context : QuoteContext) : Bool :=
  match markerAbove casing lines block.start with
  | none => false
  | some .declared => true
  | some .ambiguous =>
    subjectDeclaresForward casing context.subject ||
      match context.forwardedSender with
      | none => true
      | some none => false
      | some (some sender) =>
        (parseAddressList casing block.sender).contains (casing.lower (trimUnits sender))

/-- The first block of headers that quotes the history and does not introduce a forwarded message,
if something is written above it. -/
def findQuotedHistoryStart (lines : List Utf16Text) (context : QuoteContext) :
    List QuotedHeaderBlock → Option QuotedHeaderBlock
  | [] => none
  | block :: blocks =>
    if introducesForwardedMessage casing lines block context then
      findQuotedHistoryStart lines context blocks
    else if !someInk (lines.take block.start) then none
    else some block

/-- Where the first block of a quote begins. -/
def findHeaderBlockQuoteCut (lines : List Utf16Text) (context : QuoteContext) : Option ℕ :=
  (findQuotedHistoryStart casing lines context (findHeaderBlocks casing lines)).map (·.start)

/-- A line that is blank or quoted. -/
def blankOrQuoted (line : Utf16Text) : Bool :=
  let t := trimUnits line
  t = [] || t.head? = some 0x3e

/-- The loop of `findTrailingQuoteCut`: `n` stands for `i + 1`, the number of lines up to the last
one that is neither blank nor quoted. -/
def lastOwnLine (lines : List Utf16Text) : ℕ → ℕ
  | 0 => 0
  | n + 1 => if blankOrQuoted (lines.getD n []) then lastOwnLine lines n else n + 1

/-- Where quoted lines at the end begin, three or more. -/
def findTrailingQuoteCut (lines : List Utf16Text) : Option ℕ :=
  let n := lastOwnLine lines lines.length
  if n + 2 < lines.length ∧ n < lines.length then some n else none

/-- The loop of `findSignatureOpener`, at line `i`. -/
def findSignatureOpenerFrom (context : QuoteContext) : ℕ → List Utf16Text → Option ℕ
  | _, [] => none
  | i, line :: rest =>
    if subjectDeclaresForward casing context.subject &&
        (forwardMarkerKind casing (trimUnits line)).isSome then
      findSignatureOpenerFrom context (i + 1) rest
    else if signatureOpeners.any (·.test casing (trimUnits line)) then some i
    else findSignatureOpenerFrom context (i + 1) rest

/-- Where a signature begins. -/
def findSignatureOpener (lines : List Utf16Text) (context : QuoteContext) : Option ℕ :=
  findSignatureOpenerFrom casing context 0 lines

/-- Where quoted lines above the signature begin. -/
def findQuoteCutAboveSignature (lines : List Utf16Text) (context : QuoteContext) : Option ℕ :=
  (findSignatureOpener casing lines context).bind fun opener =>
    findTrailingQuoteCut (lines.take opener)

/-! ### The text without its history -/

/-- The text above the cut, and the signature below it. -/
def joinAroundQuote (lines : List Utf16Text) (cut : ℕ) (context : QuoteContext) : Utf16Text :=
  let kept := trimUnits (trimEndUnits (joinLines (lines.take cut)))
  let below := lines.drop cut
  match findSignatureOpener casing below context with
  | none => kept
  | some opener =>
    let signature := below.drop opener
    if signature.any fun l => (l.dropWhile isBlankUnit).head? = some 0x3e then kept
    else
      let text := trimEndUnits (joinLines signature)
      if text = [] then kept else kept ++ [0x0a, 0x0a] ++ text

/-- The place where the quoted history begins, as the first finder that has one says. -/
def findCut (lines : List Utf16Text) (context : QuoteContext) : Option ℕ :=
  findQuoteHeaderCut casing lines context <|> findHeaderBlockQuoteCut casing lines context <|>
    findTrailingQuoteCut lines <|> findQuoteCutAboveSignature casing lines context

/-- A reply without what it quotes. -/
def stripQuotedReplyText (body : Utf16Text) (context : QuoteContext) : Utf16Text :=
  if body = [] then body
  else
    let lines := unwrapAttributionBreaks casing (bodyLines body)
    match findCut casing lines context with
    | none => trimUnits (trimEndUnits (joinLines lines))
    | some cut => joinAroundQuote casing lines cut context

end

/-! ### What the lines say -/

theorem trimUnits_chopReturn (line : Utf16Text) : trimUnits (chopReturn line) = trimUnits line := by
  unfold chopReturn
  split_ifs with hend
  · conv_rhs => rw [← List.dropLast_append_getLast? _ hend, trimUnits_concat (by decide)]
  · rfl

theorem chopReturn_subset (line : Utf16Text) : chopReturn line ⊆ line := by
  unfold chopReturn
  split_ifs
  · exact List.dropLast_subset line
  · exact List.Subset.refl line

theorem inkLines_chopReturns (lines : List Utf16Text) :
    inkLines (chopReturns lines) = inkLines lines := by
  induction lines using chopReturns.induct with
  | case1 => rfl
  | case2 line => rfl
  | case3 line lines hne ih =>
    rw [chopReturns.eq_3 _ _ hne, inkLines_cons_congr (trimUnits_chopReturn line),
      ← List.singleton_append, inkLines_append, ih, ← inkLines_append, List.singleton_append]

/-- What the lines of a text say does not depend on carriage returns at their ends. -/
theorem inkLines_bodyLines (text : Utf16Text) :
    inkLines (bodyLines text) = inkLines (text.splitOn 0x0a) :=
  inkLines_chopReturns _

theorem chopReturns_lineFeeds {lines : List Utf16Text} (h : ∀ line ∈ lines, 0x0a ∉ line) :
    ∀ line ∈ chopReturns lines, 0x0a ∉ line := by
  induction lines using chopReturns.induct with
  | case1 => exact h
  | case2 line => exact h
  | case3 line lines hne ih =>
    rw [chopReturns.eq_3 _ _ hne]
    intro l hl
    rcases List.mem_cons.1 hl with rfl | hl
    · exact fun hmem => h line List.mem_cons_self (chopReturn_subset line hmem)
    · exact ih (fun l hl => h l (List.mem_cons_of_mem _ hl)) l hl

/-- No line of a text has a line feed. -/
theorem bodyLines_lineFeeds (text : Utf16Text) : ∀ line ∈ bodyLines text, 0x0a ∉ line :=
  chopReturns_lineFeeds fun _ => not_mem_of_mem_splitOn

section

variable (casing : Casing)

variable {lines : List Utf16Text} {line : Utf16Text} {cut : ℕ} {context : QuoteContext}

theorem unwrapAttributionBreaks_lineFeeds (h : ∀ line ∈ lines, 0x0a ∉ line) :
    ∀ line ∈ unwrapAttributionBreaks casing lines, 0x0a ∉ line := by
  induction lines using unwrapAttributionBreaks.induct casing with
  | case1 line next lines hjoin ih =>
    rw [unwrapAttributionBreaks, if_pos hjoin]
    intro l hl
    rcases List.mem_cons.1 hl with rfl | hl
    · intro hmem
      rcases List.mem_append.1 hmem with hmem | hmem
      · exact h line List.mem_cons_self hmem
      · exact h next (by simp) (mem_of_mem_trimUnits hmem)
    · exact ih (fun l hl => h l (by simp [hl])) l hl
  | case2 line next lines hkeep ih =>
    rw [unwrapAttributionBreaks, if_neg hkeep]
    intro l hl
    rcases List.mem_cons.1 hl with rfl | hl
    · exact h l List.mem_cons_self
    · exact ih (fun l hl => h l (List.mem_cons_of_mem _ hl)) l hl
  | case3 lines hshort =>
    rw [unwrapAttributionBreaks.eq_2 _ _ hshort]
    exact h

/-- What is left of a text with these lines: lines from the top, trimmed, and perhaps lines from
further below, with an empty line between. -/
def KeptAround (lines : List Utf16Text) (result : Utf16Text) : Prop :=
  ∃ kept dropped, lines = kept ++ dropped ∧
    (result = trimUnits (trimEndUnits (joinLines kept)) ∨
      ∃ quoted signature, dropped = quoted ++ signature ∧
        result = trimUnits (trimEndUnits (joinLines kept)) ++ [0x0a, 0x0a] ++
          trimEndUnits (joinLines signature))

variable {kept : List Utf16Text}

theorem inkLines_kept (h : ∀ line ∈ kept, 0x0a ∉ line) :
    inkLines ((trimUnits (trimEndUnits (joinLines kept))).splitOn 0x0a) = inkLines kept := by
  rw [inkLines_splitOn_trimUnits, trimEndUnits, inkLines_splitOn_rdropWhile, joinLines,
    inkLines_splitOn_join h]

/-- What is kept says nothing that the lines do not say, in their order. -/
theorem KeptAround.inkLines_sublist {result : Utf16Text}
    (hlines : ∀ line ∈ lines, 0x0a ∉ line) (h : KeptAround lines result) :
    List.Sublist (inkLines (bodyLines result)) (inkLines lines) := by
  obtain ⟨kept, dropped, rfl, hresult⟩ := h
  have hkept : ∀ line ∈ kept, 0x0a ∉ line := fun l hl => hlines l (List.mem_append_left _ hl)
  rw [inkLines_bodyLines, inkLines_append]
  rcases hresult with rfl | ⟨quoted, signature, rfl, rfl⟩
  · rw [inkLines_kept hkept]
    exact List.sublist_append_left _ _
  · have hsignature : ∀ line ∈ signature, 0x0a ∉ line :=
      fun l hl => hlines l (by simp [hl])
    rw [List.append_assoc, List.cons_append, List.cons_append, List.nil_append,
      List.splitOn_append_cons_self, inkLines_append, inkLines_kept hkept,
      inkLines_splitOn_cons (by decide), trimEndUnits, inkLines_splitOn_rdropWhile, joinLines,
      inkLines_splitOn_join hsignature, inkLines_append]
    exact (List.Sublist.refl _).append (List.sublist_append_right _ _)

/-! ### The result -/

theorem joinAroundQuote_kept (lines : List Utf16Text) (cut : ℕ) (context : QuoteContext) :
    KeptAround lines (joinAroundQuote casing lines cut context) := by
  refine ⟨lines.take cut, lines.drop cut, (List.take_append_drop cut lines).symm, ?_⟩
  unfold joinAroundQuote
  dsimp only
  split
  · exact .inl rfl
  · rename_i opener hopener
    split_ifs
    · exact .inl rfl
    · exact .inl rfl
    · exact .inr ⟨_, _, (List.take_append_drop opener (lines.drop cut)).symm, rfl⟩

/-- The text without its quoted history is kept around it. -/
theorem stripQuotedReplyText_kept (body : Utf16Text) (context : QuoteContext) :
    KeptAround (unwrapAttributionBreaks casing (bodyLines body))
      (stripQuotedReplyText casing body context) := by
  unfold stripQuotedReplyText
  split_ifs with hnil
  · rw [hnil]
    exact ⟨[[]], [], rfl, .inl rfl⟩
  · dsimp only
    split
    · exact ⟨_, [], (List.append_nil _).symm, .inl rfl⟩
    · exact joinAroundQuote_kept casing _ _ context

/-! ### Something is left -/

theorem someInk_iff : someInk lines = true ↔ ∃ line ∈ lines, ∃ u ∈ line, isBlankUnit u = false := by
  simp only [someInk, List.any_eq_true, decide_eq_true_eq, trimUnits_ne_nil_iff]

theorem mem_joinLines (hline : line ∈ lines) {u : ℕ} (hu : u ∈ line) : u ∈ joinLines lines := by
  induction lines with
  | nil => exact absurd hline List.not_mem_nil
  | cons first rest ih =>
    by_cases hrest : rest = []
    · subst hrest
      rw [List.mem_singleton] at hline
      simpa [joinLines, List.intercalate, hline] using hu
    · rw [joinLines, List.intercalate_cons_of_ne_nil hrest]
      rcases List.mem_cons.1 hline with rfl | hline
      · simp [hu]
      · have hmem := ih hline
        rw [joinLines] at hmem
        simp [hmem]

theorem mem_trimEndUnits {text : Utf16Text} {u : ℕ} (h : u ∈ text) (hu : isBlankUnit u = false) :
    u ∈ trimEndUnits text := by
  rw [← List.rdropWhile_append_rtakeWhile (p := isBlankUnit) (l := text), List.mem_append] at h
  refine h.resolve_right fun hblank => ?_
  rw [List.mem_rtakeWhile_imp hblank] at hu
  cases hu

/-- Lines that are not all blank leave something. -/
theorem kept_ne_blank (h : someInk kept = true) :
    ∃ u ∈ trimUnits (trimEndUnits (joinLines kept)), isBlankUnit u = false := by
  obtain ⟨line, hline, u, hu, hink⟩ := someInk_iff.1 h
  exact ⟨u, mem_trimUnits (mem_trimEndUnits (mem_joinLines hline hu) hink) hink, hink⟩

/-- A cut below a line that is not blank leaves something. -/
theorem joinAroundQuote_ne_blank (h : someInk (lines.take cut) = true) (context : QuoteContext) :
    ∃ u ∈ joinAroundQuote casing lines cut context, isBlankUnit u = false := by
  obtain ⟨u, hu, hink⟩ := kept_ne_blank h
  refine ⟨u, ?_, hink⟩
  unfold joinAroundQuote
  dsimp only
  split
  · exact hu
  · split_ifs
    · exact hu
    · exact hu
    · exact List.mem_append_left _ (List.mem_append_left _ hu)

/-- The first finder does not cut at the top. -/
theorem findQuoteHeaderCut_guard (h : findQuoteHeaderCut casing lines context = some cut) :
    someInk (lines.take cut) = true := by
  have hloop : ∀ i rest, findQuoteHeaderCutFrom casing lines context i rest = some cut →
      someInk (lines.take cut) = true := by
    intro i rest
    induction rest generalizing i with
    | nil => intro h; cases h
    | cons line rest ih =>
      intro h
      rw [findQuoteHeaderCutFrom] at h
      split_ifs at h with hheader hforward hink
      · exact ih _ h
      · exact ih _ h
      · rw [← Option.some.inj h]
        simpa using hink
  exact hloop 0 lines h

/-- The second finder does not cut at the top. -/
theorem findHeaderBlockQuoteCut_guard
    (h : findHeaderBlockQuoteCut casing lines context = some cut) :
    someInk (lines.take cut) = true := by
  obtain ⟨found, hfound, rfl⟩ := Option.map_eq_some_iff.1 h
  have hloop : ∀ blocks, findQuotedHistoryStart casing lines context blocks = some found →
      someInk (lines.take found.start) = true := by
    intro blocks
    induction blocks with
    | nil => intro h; cases h
    | cons block blocks ih =>
      intro h
      rw [findQuotedHistoryStart] at h
      split_ifs at h with hforward hink
      · exact ih h
      · rw [← Option.some.inj h]
        simpa using hink
  exact hloop _ hfound

/-- The loop of the third finder stops below the last line of one's own. -/
theorem lastOwnLine_spec (lines : List Utf16Text) (n : ℕ) :
    lastOwnLine lines n ≤ n ∧
      (lastOwnLine lines n ≠ 0 →
        blankOrQuoted (lines.getD (lastOwnLine lines n - 1) []) = false) ∧
      ∀ k < n, lastOwnLine lines n ≤ k → blankOrQuoted (lines.getD k []) = true := by
  induction n with
  | zero => exact ⟨Nat.le_refl 0, fun h => absurd rfl h, fun k hk => absurd hk (Nat.not_lt_zero k)⟩
  | succ n ih =>
    obtain ⟨hle, hown, hbelow⟩ := ih
    rw [lastOwnLine]
    split_ifs with hlast
    · refine ⟨Nat.le_succ_of_le hle, hown, fun k hk hkept => ?_⟩
      rcases Nat.lt_succ_iff_lt_or_eq.1 hk with hk | rfl
      · exact hbelow k hk hkept
      · exact hlast
    · exact ⟨Nat.le_refl _, fun _ => by simpa using hlast, fun k hk hkept => by omega⟩

theorem not_blank_of_own (h : blankOrQuoted line = false) : trimUnits line ≠ [] := by
  intro hnil
  simp [blankOrQuoted, hnil] at h

/-- The third finder keeps a line of one's own, unless it cuts at the top. -/
theorem findTrailingQuoteCut_guard (h : findTrailingQuoteCut lines = some cut) (hcut : cut ≠ 0) :
    someInk (lines.take cut) = true := by
  obtain ⟨hle, hown, -⟩ := lastOwnLine_spec lines lines.length
  unfold findTrailingQuoteCut at h
  dsimp only at h
  split_ifs at h
  obtain rfl := Option.some.inj h
  have hin : lastOwnLine lines lines.length - 1 < lines.length := by omega
  have hlast := hown hcut
  rw [List.getD_eq_getElem _ _ hin] at hlast
  refine List.any_eq_true.2 ⟨_, List.mem_take_iff_getElem.2
    ⟨lastOwnLine lines lines.length - 1, by omega, rfl⟩, ?_⟩
  exact decide_eq_true (not_blank_of_own hlast)

/-- It cuts at the top only where no line is one's own. -/
theorem findTrailingQuoteCut_zero (h : findTrailingQuoteCut lines = some 0) :
    ∀ line ∈ lines, blankOrQuoted line = true := by
  obtain ⟨-, -, hbelow⟩ := lastOwnLine_spec lines lines.length
  unfold findTrailingQuoteCut at h
  dsimp only at h
  split_ifs at h
  rw [Option.some.inj h] at hbelow
  intro line hline
  obtain ⟨k, hk, rfl⟩ := List.mem_iff_getElem.1 hline
  have hquoted := hbelow k hk (Nat.zero_le k)
  rwa [List.getD_eq_getElem _ _ hk] at hquoted

/-- The lines above the signature. -/
def aboveSignature (lines : List Utf16Text) (context : QuoteContext) : List Utf16Text :=
  lines.take ((findSignatureOpener casing lines context).getD lines.length)

/-- Whichever finder wins, something is kept, unless it cuts at the top. -/
theorem findCut_guard (h : findCut casing lines context = some cut) (hcut : cut ≠ 0) :
    someInk (lines.take cut) = true := by
  simp only [findCut, Option.orElse_eq_orElse, Option.orElse_eq_or, Option.or_eq_some_iff] at h
  rcases h with h | ⟨-, h | ⟨-, h | ⟨-, h⟩⟩⟩
  · exact findQuoteHeaderCut_guard casing h
  · exact findHeaderBlockQuoteCut_guard casing h
  · exact findTrailingQuoteCut_guard h hcut
  · obtain ⟨opener, -, hfound⟩ := Option.bind_eq_some_iff.1 h
    obtain ⟨line, hline, hink⟩ := someInk_iff.1 (findTrailingQuoteCut_guard hfound hcut)
    rw [List.take_take] at hline
    exact someInk_iff.2 ⟨line, List.take_subset_take_left _ (Nat.min_le_left _ _) hline, hink⟩

/-- The last two finders alone cut at the top, where no line above the signature is one's own. -/
theorem findCut_zero (h : findCut casing lines context = some 0) :
    ∀ line ∈ aboveSignature casing lines context, blankOrQuoted line = true := by
  simp only [findCut, Option.orElse_eq_orElse, Option.orElse_eq_or, Option.or_eq_some_iff] at h
  rcases h with h | ⟨-, h | ⟨-, h | ⟨-, h⟩⟩⟩
  · cases findQuoteHeaderCut_guard casing h
  · cases findHeaderBlockQuoteCut_guard casing h
  · exact fun line hline => findTrailingQuoteCut_zero h line (List.mem_of_mem_take hline)
  · obtain ⟨opener, hopener, hfound⟩ := Option.bind_eq_some_iff.1 h
    rw [aboveSignature, hopener, Option.getD_some]
    exact findTrailingQuoteCut_zero hfound

/-- Whether the signature below a cut at the top is put back: no line of it is quoted. -/
def PutsBack (lines : List Utf16Text) (context : QuoteContext) : Prop :=
  ∃ opener, findSignatureOpener casing lines context = some opener ∧
    (∀ line ∈ lines.drop opener, (line.dropWhile isBlankUnit).head? ≠ some 0x3e) ∧
    someInk (lines.drop opener) = true

theorem joinAroundQuote_zero (h : PutsBack casing lines context) :
    ∃ u ∈ joinAroundQuote casing lines 0 context, isBlankUnit u = false := by
  obtain ⟨opener, hopener, hplain, hink⟩ := h
  obtain ⟨line, hline, u, hu, hsays⟩ := someInk_iff.1 hink
  have hmem := mem_trimEndUnits (mem_joinLines hline hu) hsays
  refine ⟨u, ?_, hsays⟩
  unfold joinAroundQuote
  simp only [List.drop_zero, hopener]
  rw [if_neg fun hquoted => ?_, if_neg (List.ne_nil_of_mem hmem)]
  · exact List.mem_append_right _ hmem
  · obtain ⟨l, hl, hhead⟩ := List.any_eq_true.1 hquoted
    exact hplain l hl (of_decide_eq_true hhead)

/-- A text that is not blank has a line that is not. -/
theorem inkLines_splitOn_ne_nil {text : Utf16Text} (h : ∃ u ∈ text, isBlankUnit u = false) :
    inkLines (text.splitOn 0x0a) ≠ [] := by
  induction text with
  | nil => simp at h
  | cons v text ih =>
    by_cases hv : isBlankUnit v = true
    · rw [inkLines_splitOn_cons hv]
      obtain ⟨u, hu, hink⟩ := h
      rcases List.mem_cons.1 hu with rfl | hu
      · simp [hink] at hv
      · exact ih ⟨u, hu, hink⟩
    · have hline : v ≠ 0x0a := fun heq => hv (heq ▸ rfl)
      obtain ⟨first, rest, hsplit⟩ := List.exists_cons_of_ne_nil (List.splitOn_ne_nil 0x0a text)
      rw [List.splitOn_cons_eq_if_modifyHead, if_neg (by simpa using hline), hsplit,
        List.modifyHead_cons]
      refine List.ne_nil_of_mem (List.mem_filter.2 ⟨List.mem_cons_self, ?_⟩)
      exact decide_eq_true (trimUnits_ne_nil_iff.2 ⟨v, List.mem_cons_self, by simpa using hv⟩)

/-- Joining wrapped lines leaves a text blank or not, as it was. -/
theorem someInk_unwrapAttributionBreaks (lines : List Utf16Text) :
    someInk (unwrapAttributionBreaks casing lines) = someInk lines := by
  induction lines using unwrapAttributionBreaks.induct casing with
  | case1 line next lines hjoin ih =>
    have hboth : decide (trimUnits (line ++ trimUnits next) ≠ []) =
        (decide (trimUnits line ≠ []) || decide (trimUnits next ≠ [])) := by
      rw [← Bool.decide_or, decide_eq_decide]
      simp only [trimUnits_ne_nil_iff, List.mem_append, or_and_right, exists_or]
      refine or_congr_right ⟨fun ⟨u, hu, hink⟩ => ⟨u, mem_of_mem_trimUnits hu, hink⟩,
        fun ⟨u, hu, hink⟩ => ⟨u, mem_trimUnits hu hink, hink⟩⟩
    rw [unwrapAttributionBreaks, if_pos hjoin, someInk, List.any_cons, hboth, Bool.or_assoc]
    exact congrArg (fun b => _ || (_ || b)) ih
  | case2 line next lines hkeep ih =>
    rw [unwrapAttributionBreaks, if_neg hkeep, someInk, List.any_cons]
    exact congrArg (_ || ·) ih
  | case3 lines hshort => rw [unwrapAttributionBreaks.eq_2 _ _ hshort]

/-- The lines of a text that is not blank are not all blank. -/
theorem someInk_bodyLines {body : Utf16Text} (h : ∃ u ∈ body, isBlankUnit u = false) :
    someInk (unwrapAttributionBreaks casing (bodyLines body)) = true := by
  have hlines : inkLines (bodyLines body) ≠ [] := by
    rw [inkLines_bodyLines]
    exact inkLines_splitOn_ne_nil h
  obtain ⟨text, htext⟩ := List.exists_mem_of_ne_nil _ hlines
  obtain ⟨hmem, hne⟩ := List.mem_filter.1 htext
  obtain ⟨line, hline, rfl⟩ := List.mem_map.1 hmem
  rw [someInk_unwrapAttributionBreaks]
  exact List.any_eq_true.2 ⟨line, hline, hne⟩

/-- The text without its quoted history consists of lines from the top of the text, trimmed, and
perhaps of a signature from further below behind an empty line. What its lines say, apart from
blanks at their ends, the lines of the text say in the same order. A text that is not blank is not
stripped to a blank one, unless the cut is at its first line and no signature is put back; and that
line is cut only where no line above the signature is one's own. -/
theorem stripQuotedReplyText_keeps (body : Utf16Text) (context : QuoteContext) :
    KeptAround (unwrapAttributionBreaks casing (bodyLines body))
        (stripQuotedReplyText casing body context) ∧
      List.Sublist (inkLines (bodyLines (stripQuotedReplyText casing body context)))
        (inkLines (unwrapAttributionBreaks casing (bodyLines body))) ∧
      ((∃ u ∈ body, isBlankUnit u = false) →
        (findCut casing (unwrapAttributionBreaks casing (bodyLines body)) context = some 0 →
          PutsBack casing (unwrapAttributionBreaks casing (bodyLines body)) context) →
        ∃ u ∈ stripQuotedReplyText casing body context, isBlankUnit u = false) ∧
      (findCut casing (unwrapAttributionBreaks casing (bodyLines body)) context = some 0 →
        ∀ line ∈ aboveSignature casing (unwrapAttributionBreaks casing (bodyLines body)) context,
          blankOrQuoted line = true) := by
  have hkept := stripQuotedReplyText_kept casing body context
  refine ⟨hkept, hkept.inkLines_sublist (unwrapAttributionBreaks_lineFeeds casing
    (bodyLines_lineFeeds body)), fun hink hback => ?_, findCut_zero casing⟩
  have hlines := someInk_bodyLines casing hink
  unfold stripQuotedReplyText
  split_ifs with hnil
  · simp [hnil] at hink
  · dsimp only
    split
    · exact kept_ne_blank hlines
    · rename_i cut hcut
      by_cases hzero : cut = 0
      · subst hzero
        exact joinAroundQuote_zero casing (hback hcut)
      · exact joinAroundQuote_ne_blank casing (findCut_guard casing hcut hzero) context

/-! ### A text of one line -/

theorem trimUnits_trimEndUnits (text : Utf16Text) :
    trimUnits (trimEndUnits text) = trimUnits text := by
  unfold trimEndUnits
  induction text using List.reverseRecOn with
  | nil => rfl
  | append_singleton text u ih =>
    by_cases hu : isBlankUnit u = true
    · rw [List.rdropWhile_concat_pos _ _ _ hu, ih, trimUnits_concat hu]
    · rw [List.rdropWhile_concat_neg _ _ _ hu]

theorem findTrailingQuoteCut_of_short (h : lines.length ≤ 2) : findTrailingQuoteCut lines = none :=
  if_neg fun hcut => by omega

/-- In a text of one line no finder finds a cut. -/
theorem findCut_single (line : Utf16Text) (context : QuoteContext) :
    findCut casing [line] context = none := by
  have hheader : findQuoteHeaderCut casing [line] context = none := by
    simp [findQuoteHeaderCut, findQuoteHeaderCutFrom, someInk]
  have hblock : readHeaderBlock casing [line] 0 = none := by
    unfold readHeaderBlock
    split
    · rfl
    · rfl
  have hblocks : findHeaderBlockQuoteCut casing [line] context = none := by
    simp [findHeaderBlockQuoteCut, findHeaderBlocks, findHeaderBlocksFrom, hblock,
      findQuotedHistoryStart]
  have hsignature : findQuoteCutAboveSignature casing [line] context = none := by
    refine Option.bind_eq_none_iff.2 fun opener _ => findTrailingQuoteCut_of_short ?_
    exact (List.length_take_le' _ _).trans (Nat.le_succ 1)
  simp [findCut, hheader, hblocks, hsignature, findTrailingQuoteCut_of_short]

/-- A text of one line is only trimmed. -/
theorem stripQuotedReplyText_single (h : bodyLines line = [line]) (context : QuoteContext) :
    stripQuotedReplyText casing line context = trimUnits line := by
  unfold stripQuotedReplyText
  split_ifs with hnil
  · rw [hnil]
    rfl
  · dsimp only
    rw [h]
    have hunwrap : unwrapAttributionBreaks casing [line] = [line] := rfl
    rw [hunwrap, findCut_single, trimUnits_trimEndUnits]
    change trimUnits (joinLines [line]) = _
    rw [joinLines, List.intercalate_singleton]

end

/-- The case of ASCII letters. -/
def asciiCasing : Casing where
  upper u := if 97 ≤ u ∧ u ≤ 122 then u - 32 else u
  lower := List.map fun u => if 65 ≤ u ∧ u ≤ 90 then u + 32 else u

/-- An indented text of one line: the line that is left is no line of the text. -/
theorem indented_line_is_trimmed :
    ∃ line ∈ bodyLines (stripQuotedReplyText asciiCasing (utf16 "  Hello") {}),
      line ∉ unwrapAttributionBreaks asciiCasing (bodyLines (utf16 "  Hello")) := by
  rw [stripQuotedReplyText_single _ (by decide +kernel)]
  exact ⟨utf16 "Hello", by decide +kernel, by decide +kernel⟩

end Munin.Conversations
