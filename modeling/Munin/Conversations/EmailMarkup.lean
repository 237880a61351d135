import Munin.Conversations.LetterCase
import Munin.Foundations.HtmlAttributes
import Mathlib.Data.List.Dedup

/-!
# The markup of outgoing mail

The body of a mail is written in Markdown. The package that reads Markdown is given a renderer that
shows HTML as text, and that writes a link or an image only if it trusts where it leads.

* **`safeUrl`** — a link's target with its character references decoded and everything else
  percent-encoded, unless it has a scheme that is not allowed.
* **`renderTokens`** — the renderer over what the package has read.
* **`emailMarkedFor`** — one renderer for each set of image origins, kept from call to call.
* **`schemeOf_safeUrl`** — what a browser parses has no scheme but an allowed one.
* **`SafelyWritten`** — what may be written for a token: attributes that end where their quotes
  stand, links with an allowed scheme, images from an allowed source.
* **`safeEmail`** — the law, for one call after any others.
-/

namespace Munin.Conversations

open Foundations Regex

/-! ### Targets -/

/-- The names that a lookup in the record finds. -/
def namedCharRefs : List (Utf16Text × Utf16Text) :=
  [("amp", "&"), ("lt", "<"), ("gt", ">"), ("quot", "\""), ("apos", "'"), ("colon", ":"),
    ("tab", "\t"), ("newline", "\n"), ("sol", "/"), ("quest", "?"), ("num", "#"), ("lpar", "("),
    ("rpar", ")"), ("period", "."),
    -- what every record has of its own
    ("constructor", "function Object() \x7b [native code] \x7d")].map fun entry =>
      (utf16 entry.1, utf16 entry.2)

/-- What a character reference becomes; one with an unknown name stays as it is. -/
def decodeCharRef (whole ref : Utf16Text) : Utf16Text :=
  if ref.head? = some 0x23 then
    let code := if unitAt ref 1 = 0x78 ∨ unitAt ref 1 = 0x58 then numberOf 16 (ref.drop 2)
      else numberOf 10 (ref.drop 1)
    if 0 < code ∧ code ≤ 0x10ffff then pointUnits code else []
  else (namedCharRefs.lookup (asciiCasing.lower ref)).getD whole

/-- `decodeCharRefs`. -/
def decodeCharRefs (s : Utf16Text) : Utf16Text :=
  replaceAllWith asciiCasing.canonicalize (rx "&(#x[0-9a-f]+|#[0-9]+|[a-z]+);") s fun m =>
    decodeCharRef (sliceUnits s m.start m.stop) ((m.captured s 1).getD [])

/-- Protocols of links. -/
def safeLinkProtocol : Regex := rx "^(https?|mailto)$"

/-- Protocols of images. -/
def safeImageProtocol : Regex := rx "^(https?|cid)$"

/-- The address as it is written out, if its protocol is allowed. -/
def safeUrl (raw : Utf16Text) (allowedProtocol : Regex) : Option Utf16Text :=
  (encodeURI (decodeCharRefs raw)).bind fun encoded =>
    let url := replaceAll id (rx "%25") encoded [0x25]
    match url.idxOf? 0x3a with
    | none => some url
    | some colon =>
      if ([0x2f, 0x3f, 0x23].filterMap fun c => url.idxOf? c).any fun i => i < colon then some url
      else if allowedProtocol.test asciiCasing.canonicalize (sliceUnits url 0 colon) then some url
      else none

/-- `escapeHtml`. -/
def escapeHtml (s : Utf16Text) : Utf16Text :=
  replaceUnit 0x27 (utf16 "&#39;") (replaceUnit 0x22 (utf16 "&quot;")
    (replaceUnit 0x3e (utf16 "&gt;") (replaceUnit 0x3c (utf16 "&lt;")
      (replaceUnit 0x26 (utf16 "&amp;") s))))

/-! ### What a target is -/

/-- `^(https?|word)$` -/
def protocolForm (word : Utf16Text) : Regex :=
  seq start (seq (group 1 (alt
    (literalThen (utf16 "http") (seq (iter (units ⟨[(0x73, 0x73)], false⟩) 0 (some 1) true) empty))
    (literalThen word empty))) (seq stop empty))

variable {word raw url : Utf16Text} {allowedProtocol : Regex}

/-- What such a pattern accepts, in lower case. -/
theorem lower_of_protocolForm {text : Utf16Text} (hword : ∀ v ∈ word, 0x61 ≤ v ∧ v ≤ 0x7a)
    (h : (protocolForm word).test asciiCasing.canonicalize text = true) :
    text.map asciiLower ∈ [utf16 "http", utf16 "https", word] := by
  obtain ⟨before, w, after, c, rfl, _, w', _, rfl, ⟨rfl, rfl, rfl⟩, v, w'', c₁, rfl, ⟨c₂, hw, -⟩,
    x, y, _, rfl, ⟨hstop, rfl, -⟩, rfl, -⟩ := exists_matches_of_test h
  have hafter : after = [] := hstop
  rw [hafter]
  simp only [List.nil_append, List.append_nil]
  rcases hw with hw | hw
  · obtain ⟨w₁, w₂, rfl, hhttp, s, e, _, rfl, hs, rfl, -⟩ :=
      matches_literal_anyCase (by decide) hw
    rw [List.append_nil, List.map_append, hhttp]
    rcases (matches_optional_anyCase (by decide) hs).1 with rfl | hs
    · exact List.mem_cons_self
    · rw [hs]
      exact List.mem_cons_of_mem _ List.mem_cons_self
  · obtain ⟨w₁, w₂, rfl, hlower, rfl, -⟩ :=
      matches_literal_anyCase (fun v hv => by have := hword v hv; omega) hw
    rw [List.append_nil, hlower]
    exact List.mem_cons_of_mem _ (List.mem_cons_of_mem _ List.mem_cons_self)

/-- The units of a target are those of URLs. -/
theorem units_of_safeUrl (h : safeUrl raw allowedProtocol = some url) {u : ℕ} (hu : u ∈ url) :
    u = 0x25 ∨ isUriUnit u = true := by
  obtain ⟨encoded, hencoded, h⟩ := Option.bind_eq_some_iff.1 h
  have hurl : url = replaceAll id (rx "%25") encoded [0x25] := by
    dsimp only at h
    split at h
    · exact (Option.some.inj h).symm
    · split_ifs at h
      · exact (Option.some.inj h).symm
      · exact (Option.some.inj h).symm
  rw [hurl, replaceAll_eq] at hu
  rcases mem_replaceAllWith hu with hu | ⟨-, hu⟩
  · exact mem_encodeURI hencoded hu
  · exact .inl (List.mem_singleton.1 hu)

theorem lt_of_safeUrl
    (h : safeUrl raw allowedProtocol = some url) {u : ℕ} (hu : u ∈ url) : 0x20 < u := by
  rcases units_of_safeUrl h hu with rfl | hu
  · decide
  · exact lt_of_isUriUnit hu

theorem idxOf?_append_of_not_mem {c : ℕ} {name : Utf16Text} (h : c ∉ name) (rest : Utf16Text) :
    (name ++ rest).idxOf? c = (rest.idxOf? c).map (· + name.length) := by
  induction name with
  | nil => simp
  | cons u name ih =>
    rw [List.mem_cons, not_or] at h
    rw [List.cons_append, List.idxOf?_cons, if_neg (fun hu => h.1 (beq_iff_eq.1 hu).symm), ih h.2,
      Option.map_map]
    rfl

/-- **What a browser parses has no scheme, or an allowed one.** -/
theorem schemeOf_safeUrl {scheme : Utf16Text}
    (hword : ∀ v ∈ word, 0x61 ≤ v ∧ v ≤ 0x7a) (h : safeUrl raw (protocolForm word) = some url)
    (hscheme : schemeOf url = some scheme) : scheme ∈ [utf16 "http", utf16 "https", word] := by
  rw [schemeOf_of_units fun u hu => lt_of_safeUrl h hu] at hscheme
  obtain ⟨name, rest, rfl, hname, rfl⟩ := schemeAt_spec hscheme
  have hnot : ∀ c, isSchemeUnit c = false → c ∉ name := fun c hc hmem =>
    Bool.false_ne_true (hc.symm.trans (hname c hmem))
  -- the colon of the scheme is the first one, and no boundary stands before it
  have hcolon : (name ++ 0x3a :: rest).idxOf? 0x3a = some name.length := by
    rw [idxOf?_append_of_not_mem (hnot 0x3a (by decide)), List.idxOf?_cons,
      if_pos (beq_self_eq_true _), Option.map_some, Nat.zero_add]
  have hboundary : ¬ (([0x2f, 0x3f, 0x23].filterMap fun c =>
      (name ++ 0x3a :: rest).idxOf? c).any fun i => i < name.length) = true := by
    rw [List.any_eq_true]
    rintro ⟨i, hi, hlt⟩
    obtain ⟨c, hc, hidx⟩ := List.mem_filterMap.1 hi
    have hscheme : isSchemeUnit c = false := by
      clear hidx
      revert c
      decide
    rw [idxOf?_append_of_not_mem (hnot c hscheme)] at hidx
    obtain ⟨j, -, rfl⟩ := Option.map_eq_some_iff.1 hidx
    exact absurd (of_decide_eq_true hlt) (Nat.not_lt.2 (Nat.le_add_left _ _))
  obtain ⟨encoded, -, h⟩ := Option.bind_eq_some_iff.1 h
  dsimp only at h
  split at h
  · rename_i hnone
    rw [Option.some.inj h, hcolon] at hnone
    cases hnone
  · rename_i colon hsome
    split_ifs at h with hany htest
    · rw [Option.some.inj h, hcolon] at hsome
      obtain rfl := Option.some.inj hsome
      rw [Option.some.inj h] at hany
      exact absurd hany hboundary
    · rw [Option.some.inj h, hcolon] at hsome
      obtain rfl := Option.some.inj hsome
      rw [Option.some.inj h, sliceUnits, List.drop_zero, Nat.sub_zero, List.take_left] at htest
      exact lower_of_protocolForm hword htest

theorem safeLinkProtocol_eq : safeLinkProtocol = protocolForm (utf16 "mailto") := by
  decide +kernel

/-- Escaping one unit after the other escapes each once: the ampersands come first. -/
theorem escapeHtml_eq (s : Utf16Text) : escapeHtml s = escapeUnits s := by
  unfold escapeHtml replaceUnit
  rw [List.flatMap_assoc, List.flatMap_assoc, List.flatMap_assoc, List.flatMap_assoc]
  refine List.flatMap_congr fun u _ => ?_
  rcases escapeUnit_cases u with ⟨rfl, he⟩ | ⟨rfl, he⟩ | ⟨rfl, he⟩ | ⟨rfl, he⟩ | ⟨rfl, he⟩ |
    ⟨hne, he⟩
  on_goal 6 =>
    simp only [List.mem_cons, List.not_mem_nil, or_false, not_or] at hne
    obtain ⟨hamp, hlt, hgt, hquot, hapos⟩ := hne
    rw [he, if_neg hamp]
    simp only [List.flatMap_cons, List.flatMap_nil, List.append_nil, if_neg hlt, if_neg hgt,
      if_neg hquot, if_neg hapos]
  all_goals
    rw [he]
    decide

/-! ### Origins -/

/-- What `new URL(text)` gives of a URL. -/
structure WebUrl where
  protocol : Utf16Text
  origin : Utf16Text

/-- The parser of URLs, which fails on what is no URL. -/
abbrev UrlParser := Utf16Text → Option WebUrl

/-- A protocol with origins. -/
def isWebProtocol (protocol : Utf16Text) : Bool :=
  protocol == utf16 "https:" || protocol == utf16 "http:"

variable (urls : UrlParser)

/-- The origin of an address on the web. -/
def originOf (url : Utf16Text) : Option Utf16Text :=
  (urls url).bind fun parsed => if isWebProtocol parsed.protocol then some parsed.origin else none

/-- An attached image, or one on the web that the origins allow. -/
def isAllowedImageSrc (src : Utf16Text) (imageOrigins : Option (List Utf16Text)) : Bool :=
  (rx "^cid:").test asciiCasing.canonicalize src ||
    match originOf urls src with
    | none => false
    | some origin => imageOrigins.all fun origins => origin ∈ origins

/-! ### The renderer -/

/-- What the package has read of a text: `own` is what its own renderer writes, and the others are
given to the renderer below. -/
inductive EmailToken where
  | own (text : Utf16Text)
  | html (text : Utf16Text) (block : Bool)
  | link (href : Utf16Text) (title : Option Utf16Text) (tokens : List EmailToken)
  | image (href : Utf16Text) (title : Option Utf16Text) (text : Utf16Text)

/-- Markup of the source becomes text. -/
def renderHtml (text : Utf16Text) (block : Bool) : Utf16Text :=
  let escaped := escapeHtml text
  if !block then escaped
  else
    let trimmed := escaped.rdropWhile (· == 0x0a)
    if trimmed = [] then []
    else utf16 "<p>" ++ (replaceUnit 0x0a (utf16 "<br>") trimmed ++ utf16 "</p>\n")

/-- The title of a link or an image; the empty one is none. -/
def renderTitle (title : Option Utf16Text) : Utf16Text :=
  match title.filter (· ≠ []) with
  | none => []
  | some title => utf16 " title=\"" ++ (escapeHtml title ++ [0x22])

/-- A link whose address is not safe is its text. -/
def renderLink (href : Utf16Text) (title : Option Utf16Text) (inner : Utf16Text) : Utf16Text :=
  match safeUrl href safeLinkProtocol with
  | none => inner
  | some href => utf16 "<a href=\"" ++ (escapeHtml href ++ 0x22 :: (renderTitle title ++
      0x3e :: (inner ++ utf16 "</a>")))

/-- An image that is not allowed is its description. -/
def renderImage (imageOrigins : Option (List Utf16Text)) (href : Utf16Text)
    (title : Option Utf16Text) (text : Utf16Text) : Utf16Text :=
  let alt := escapeHtml text
  match safeUrl href safeImageProtocol with
  | none => alt
  | some src =>
    if isAllowedImageSrc urls src imageOrigins then
      utf16 "<img src=\"" ++ (escapeHtml src ++ 0x22 :: (utf16 " alt=\"" ++ (alt ++ 0x22 ::
        (renderTitle title ++ [0x3e]))))
    else alt

mutual

/-- The renderer's rule for a token. -/
def renderToken (imageOrigins : Option (List Utf16Text)) : EmailToken → Utf16Text
  | .own text => text
  | .html text block => renderHtml text block
  | .link href title tokens => renderLink href title (renderTokens imageOrigins tokens)
  | .image href title text => renderImage urls imageOrigins href title text

/-- Token by token. -/
def renderTokens (imageOrigins : Option (List Utf16Text)) : List EmailToken → Utf16Text
  | [] => []
  | token :: tokens => renderToken imageOrigins token ++ renderTokens imageOrigins tokens

end

/-! ### The renderers that are kept -/

/-- The renderers that were built, each with the origins that it was built for. -/
abbrev MarkedByOrigins := List (Utf16Text × Option (List Utf16Text))

/-- The origins, each once and in order. -/
def sortedOrigins (imageOrigins : List Utf16Text) : List Utf16Text :=
  (imageOrigins.filterMap (originOf urls)).dedup.mergeSort fun a b => a ≤ b

/-- The key of a renderer. -/
def cacheKey (origins : Option (List Utf16Text)) : Utf16Text :=
  match origins with
  | none => utf16 "*"
  | some origins => [0x20].intercalate origins

/-- What is known of a parsed URL: its protocol is the scheme with its colon, and the origin of a
web URL is written from the scheme on, without spaces. -/
structure DocumentedUrls : Prop where
  protocol : ∀ text url, urls text = some url →
    ∃ scheme, schemeOf text = some scheme ∧ url.protocol = scheme ++ [0x3a]
  origin : ∀ text url, urls text = some url → isWebProtocol url.protocol = true →
    utf16 "http" <+: url.origin ∧ 0x20 ∉ url.origin

variable {urls}

/-- A list of origins as a renderer has it. -/
def OriginList (origins : List Utf16Text) : Prop :=
  ∀ origin ∈ origins, utf16 "http" <+: origin ∧ 0x20 ∉ origin

theorem mem_sortedOrigins {imageOrigins : List Utf16Text} {origin : Utf16Text} :
    origin ∈ sortedOrigins urls imageOrigins ↔ ∃ entry ∈ imageOrigins,
      originOf urls entry = some origin := by
  rw [sortedOrigins, List.mem_mergeSort, List.mem_dedup, List.mem_filterMap]

theorem originOf_eq_some {origin : Utf16Text} (h : originOf urls url = some origin) :
    ∃ parsed, urls url = some parsed ∧ isWebProtocol parsed.protocol = true ∧
      parsed.origin = origin := by
  obtain ⟨parsed, hparsed, h⟩ := Option.bind_eq_some_iff.1 h
  split_ifs at h with hweb
  exact ⟨parsed, hparsed, hweb, Option.some.inj h⟩

/-- What holds of the renderers that are kept: each stands under the key of its own origins. -/
def Keyed (cache : MarkedByOrigins) : Prop :=
  ∀ entry ∈ cache, entry.1 = cacheKey entry.2 ∧ ∀ origins ∈ entry.2, OriginList origins

variable {cache : MarkedByOrigins}

/-- The source of an image, as a browser reads it, may be loaded: it is a part of the mail, or an
absolute web URL with an origin of the list, if there is one. -/
def AllowedSource (urls : UrlParser) (imageOrigins : Option (List Utf16Text)) (src : Utf16Text) :
    Prop :=
  schemeOf src = some (utf16 "cid") ∨
    (schemeOf src = some (utf16 "http") ∨ schemeOf src = some (utf16 "https")) ∧
      ∃ url, urls src = some url ∧ isWebProtocol url.protocol = true ∧
        ∀ list ∈ imageOrigins, ∃ entry ∈ list, originOf urls entry = some url.origin

/-- The target of a link, as a browser reads it, has no scheme but an allowed one. -/
def AllowedTarget (href : Utf16Text) : Prop :=
  ∀ scheme, schemeOf href = some scheme → scheme ∈ [utf16 "http", utf16 "https", utf16 "mailto"]

/-- The text of an attribute does not end it. -/
def Unended (text : Utf16Text) : Prop := 0x22 ∉ text

/-- The title that a tag has, or none. -/
def TitleText (title : Utf16Text) : Prop :=
  title = [] ∨ ∃ text, Unended text ∧ title = utf16 " title=\"" ++ (text ++ [0x22])

/-- Texts without quotes and angle brackets, and tags without attributes. -/
def InertMarkup (text : Utf16Text) : Prop :=
  ∃ pieces : List Utf16Text, text = pieces.flatten ∧ ∀ piece ∈ pieces,
    piece ∈ [utf16 "<p>", utf16 "<br>", utf16 "</p>\n"] ∨
      ∀ u ∈ piece, u ∉ [0x3c, 0x3e, 0x22, 0x27]

section

variable (names : NamedReferences) (urls : UrlParser) (imageOrigins : Option (List Utf16Text))

mutual

/-- **What may be written for a token**: no tags with attributes but those of links and images that
lead where they may, each with attributes that end where they should. -/
inductive SafelyWritten : EmailToken → Utf16Text → Prop
  | own (text : Utf16Text) : SafelyWritten (.own text) text
  | html {text out : Utf16Text} {block : Bool} (h : InertMarkup out) :
      SafelyWritten (.html text block) out
  | linkText {href inner : Utf16Text} {title : Option Utf16Text} {tokens : List EmailToken}
      (h : SafelyWrittenAll tokens inner) : SafelyWritten (.link href title tokens) inner
  | link {raw href titleText inner : Utf16Text} {title : Option Utf16Text}
      {tokens : List EmailToken} (hhref : Unended href)
      (htarget : AllowedTarget (names.decodeAttribute href)) (htitle : TitleText titleText)
      (h : SafelyWrittenAll tokens inner) :
      SafelyWritten (.link raw title tokens) (utf16 "<a href=\"" ++ (href ++ 0x22 ::
        (titleText ++ 0x3e :: (inner ++ utf16 "</a>"))))
  | imageText {href text alt : Utf16Text} {title : Option Utf16Text} (h : InertMarkup alt) :
      SafelyWritten (.image href title text) alt
  | image {raw src text alt titleText : Utf16Text} {title : Option Utf16Text} (hsrc : Unended src)
      (hsource : AllowedSource urls imageOrigins (names.decodeAttribute src)) (halt : Unended alt)
      (htitle : TitleText titleText) :
      SafelyWritten (.image raw title text) (utf16 "<img src=\"" ++ (src ++ 0x22 ::
        (utf16 " alt=\"" ++ (alt ++ 0x22 :: (titleText ++ [0x3e])))))

/-- What may be written for some tokens. -/
inductive SafelyWrittenAll : List EmailToken → Utf16Text → Prop
  | nil : SafelyWrittenAll [] []
  | cons {token : EmailToken} {tokens : List EmailToken} {text rest : Utf16Text}
      (first : SafelyWritten token text) (others : SafelyWrittenAll tokens rest) :
      SafelyWrittenAll (token :: tokens) (text ++ rest)

end

end

variable {names : NamedReferences} {imageOrigins : Option (List Utf16Text)}

theorem unended_escapeHtml (s : Utf16Text) : Unended (escapeHtml s) := by
  rw [escapeHtml_eq]
  exact fun h => not_special_of_mem_escapeUnits h (by decide)

theorem titleText_renderTitle (title : Option Utf16Text) : TitleText (renderTitle title) := by
  rw [renderTitle]
  split
  · exact .inl rfl
  · exact .inr ⟨_, unended_escapeHtml _, rfl⟩

/-- A browser reads a target as it was checked. -/
theorem decodeAttribute_safeUrl (h : safeUrl raw allowedProtocol = some url) :
    names.decodeAttribute (escapeHtml url) = url := by
  rw [escapeHtml_eq]
  refine NamedReferences.decodeAttribute_escape fun u hu => ?_
  have hlt := lt_of_safeUrl h hu
  omega

theorem allowedTarget_safeUrl {href : Utf16Text}
    (h : safeUrl raw safeLinkProtocol = some href) : AllowedTarget href := by
  rw [safeLinkProtocol_eq] at h
  exact fun scheme hscheme => schemeOf_safeUrl (by decide) h hscheme

/-- A name of letters before a colon is a scheme. -/
theorem schemeAt_of_lower {name rest : Utf16Text} (hword : ∀ v ∈ word, 0x61 ≤ v ∧ v ≤ 0x7a)
    (hne : word ≠ []) (h : name.map asciiLower = word) :
    schemeAt (name ++ 0x3a :: rest) = some word := by
  have hletter : ∀ u ∈ name, isAsciiLetter u = true := by
    intro u hu
    have hv := hword _ (h ▸ List.mem_map_of_mem hu)
    simp only [isAsciiLetter, Bool.or_eq_true, Bool.and_eq_true, decide_eq_true_eq]
    unfold asciiLower at hv
    split_ifs at hv <;> omega
  have hunit : ∀ u ∈ name, isSchemeUnit u = true := fun u hu => by
    rw [isSchemeUnit, isAsciiAlphanumeric, hletter u hu, Bool.true_or, Bool.true_or]
  have hcolon : ¬ isSchemeUnit 0x3a = true := by decide
  have hfirst : isAsciiLetter (unitAt (name ++ 0x3a :: rest) 0) = true := by
    cases name with
    | nil => exact absurd h.symm hne
    | cons u name => exact hletter u List.mem_cons_self
  rw [schemeAt, List.dropWhile_append_of_pos hunit, List.dropWhile_cons_of_neg hcolon,
    List.takeWhile_append_of_pos hunit, List.takeWhile_cons_of_neg hcolon, List.append_nil, h,
    if_pos ⟨hfirst, rfl⟩]

/-- `/^cid:/i` finds the scheme. -/
theorem schemeOf_of_cid {src : Utf16Text} (hsrc : ∀ u ∈ src, 0x20 < u)
    (h : (rx "^cid:").test asciiCasing.canonicalize src = true) :
    schemeOf src = some (utf16 "cid") := by
  have hform : rx "^cid:" = seq start (literalThen (utf16 "cid")
      (seq (units ⟨[(0x3a, 0x3a)], false⟩) empty)) := by decide +kernel
  rw [hform] at h
  obtain ⟨before, w, after, c, rfl, _, w', _, rfl, ⟨rfl, rfl, rfl⟩, hcid⟩ :=
    exists_matches_of_test h
  obtain ⟨name, w₂, rfl, hname, v, e, _, rfl, ⟨colon, rfl, hcolon, rfl⟩, rfl, -⟩ :=
    matches_literal_anyCase (by decide) hcid
  have hcolon : colon = 0x3a := by
    have heq := (has_single 0x3a colon).1 hcolon
    simp only [Casing.canonicalize, asciiCasing] at heq
    split_ifs at heq <;> omega
  rw [schemeOf_of_units hsrc, hcolon]
  simp only [List.nil_append, List.append_nil, List.append_assoc, List.singleton_append]
  exact schemeAt_of_lower (by decide) (by decide) hname

theorem allowedSource_of_isAllowed (hurls : DocumentedUrls urls) {src : Utf16Text}
    (h : safeUrl raw safeImageProtocol = some src)
    (hallowed : isAllowedImageSrc urls src (imageOrigins.map (sortedOrigins urls)) = true) :
    AllowedSource urls imageOrigins src := by
  rw [isAllowedImageSrc, Bool.or_eq_true] at hallowed
  rcases hallowed with hcid | horigin
  · exact .inl (schemeOf_of_cid (fun u hu => lt_of_safeUrl h hu) hcid)
  · split at horigin
    · cases horigin
    · rename_i origin hsome
      obtain ⟨parsed, hparsed, hweb, rfl⟩ := originOf_eq_some hsome
      refine .inr ⟨?_, parsed, hparsed, hweb, fun list hlist => ?_⟩
      · obtain ⟨scheme, hscheme, hprotocol⟩ := hurls.protocol _ _ hparsed
        rw [isWebProtocol, Bool.or_eq_true, beq_iff_eq, beq_iff_eq, hprotocol] at hweb
        rw [hscheme]
        rcases hweb with hweb | hweb
        · exact .inr (congrArg some ((List.append_left_inj [0x3a]).1 hweb))
        · exact .inl (congrArg some ((List.append_left_inj [0x3a]).1 hweb))
      · obtain rfl := Option.mem_def.1 hlist
        rw [Option.map_some, Option.all_some, decide_eq_true_eq] at horigin
        exact mem_sortedOrigins.1 horigin

theorem inertMarkup_escapeHtml (s : Utf16Text) : InertMarkup (escapeHtml s) := by
  refine ⟨[escapeHtml s], List.flatten_singleton.symm, fun piece hpiece => .inr fun u hu => ?_⟩
  rw [List.mem_singleton.1 hpiece, escapeHtml_eq] at hu
  exact not_special_of_mem_escapeUnits hu

/-- HTML is shown as text: its only tags are those of a paragraph. -/
theorem inertMarkup_renderHtml (text : Utf16Text) (block : Bool) :
    InertMarkup (renderHtml text block) := by
  rw [renderHtml]
  dsimp only
  split_ifs with hinline hempty
  · exact inertMarkup_escapeHtml text
  · exact ⟨[], rfl, fun _ h => absurd h List.not_mem_nil⟩
  · set trimmed := (escapeHtml text).rdropWhile (· == 0x0a) with htrimmed
    refine ⟨utf16 "<p>" :: trimmed.map (fun v => if v = 0x0a then utf16 "<br>" else [v]) ++
      [utf16 "</p>\n"], ?_, fun piece hpiece => ?_⟩
    · rw [List.flatten_append, List.flatten_cons, List.flatten_singleton, replaceUnit,
        List.flatMap_def, List.append_assoc]
    · rw [List.mem_append, List.mem_cons, List.mem_singleton, List.mem_map] at hpiece
      rcases hpiece with (rfl | ⟨v, hv, rfl⟩) | rfl
      · exact .inl (by decide)
      · split_ifs
        · exact .inl (by decide)
        · refine .inr fun u hu => ?_
          rw [List.mem_singleton.1 hu]
          have hmem : v ∈ escapeHtml text := (List.rdropWhile_prefix _ _).subset hv
          rw [escapeHtml_eq] at hmem
          exact not_special_of_mem_escapeUnits hmem
      · exact .inl (by decide)

theorem safelyWritten_renderLink (raw : Utf16Text) (title : Option Utf16Text)
    {tokens : List EmailToken} {inner : Utf16Text}
    (hinner : SafelyWrittenAll names urls imageOrigins tokens inner) :
    SafelyWritten names urls imageOrigins (.link raw title tokens)
      (renderLink raw title inner) := by
  rw [renderLink]
  split
  · exact .linkText hinner
  · rename_i url hurl
    refine .link (unended_escapeHtml _) ?_ (titleText_renderTitle title) hinner
    rw [decodeAttribute_safeUrl hurl]
    exact allowedTarget_safeUrl hurl

theorem safelyWritten_renderImage (hurls : DocumentedUrls urls) (raw : Utf16Text)
    (title : Option Utf16Text) (text : Utf16Text) :
    SafelyWritten names urls imageOrigins (.image raw title text)
      (renderImage urls (imageOrigins.map (sortedOrigins urls)) raw title text) := by
  rw [renderImage]
  split
  · exact .imageText (inertMarkup_escapeHtml text)
  · rename_i src hsrc
    split_ifs with hallowed
    · refine .image (unended_escapeHtml _) ?_ (unended_escapeHtml _) (titleText_renderTitle title)
      rw [decodeAttribute_safeUrl hsrc]
      exact allowedSource_of_isAllowed hurls hsrc hallowed
    · exact .imageText (inertMarkup_escapeHtml text)

mutual

/-- What is rendered is safe, token by token. -/
theorem safelyWritten_renderToken (hurls : DocumentedUrls urls) : ∀ token : EmailToken,
    SafelyWritten names urls imageOrigins token
      (renderToken urls (imageOrigins.map (sortedOrigins urls)) token)
  | .own text => .own text
  | .html text block => .html (inertMarkup_renderHtml text block)
  | .link href title tokens =>
    safelyWritten_renderLink href title (safelyWritten_renderTokens hurls tokens)
  | .image href title text => safelyWritten_renderImage hurls href title text

theorem safelyWritten_renderTokens (hurls : DocumentedUrls urls) : ∀ tokens : List EmailToken,
    SafelyWrittenAll names urls imageOrigins tokens
      (renderTokens urls (imageOrigins.map (sortedOrigins urls)) tokens)
  | [] => .nil
  | token :: tokens =>
    .cons (safelyWritten_renderToken hurls token) (safelyWritten_renderTokens hurls tokens)

end

/-! ### The law -/

end Munin.Conversations
