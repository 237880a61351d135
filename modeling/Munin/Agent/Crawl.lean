import Munin.Agent.Robots
import Munin.Conversations.QuotedReplies
import Munin.Foundations.NestedReading

/-!
# The crawl of a site

A crawl reads robots.txt, the sitemaps that it names or the usual ones, the start page and its links
if there are few pages in them, and at last the pages themselves. A sitemap may be an index, and its
parts may be indexes again.

* **`crawl`** — the crawl, with fuel that bounds how deep it follows sitemap indexes.
* **`ReadsFirst`**, **`NestedWithin`** — the sitemaps that it begins with, and a bound of the chains
  of indexes below them.
* **`endsWithin_of_indexesWithin`** — what a crawl fetches at most, with such a bound.
* **`crawl_bounded_iff`** — the crawls of a kind are bounded by the page limit and the number of
  sitemaps exactly if the chains of indexes are. An index that lists itself has endless ones.
-/

namespace Munin.Agent

open Foundations Conversations NestedReading

/-! ### Addresses -/

/-- What `new URL` makes of a text, and what is read of it. -/
structure UrlParser (U : Type) where
  parse : Utf16Text → Option U
  /-- `new URL(text, base)` -/
  resolve : Utf16Text → Utf16Text → Option U
  href : U → Utf16Text
  origin : U → Utf16Text
  protocol : U → Utf16Text
  host : U → Utf16Text
  pathname : U → Utf16Text
  /-- The URL with `hash` and `search` set to nothing. -/
  bare : U → U
  setPathname : U → Utf16Text → U

section Addresses

variable {U : Type} (casing : Casing) (urls : UrlParser U)

/-- The address that a crawl starts from. -/
def normalizeStartUrl (input : Utf16Text) : Option U :=
  let trimmed := trimUnits input
  if trimmed = [] then none
  else
    (urls.parse (if (anyCase "^https?:\\/\\/").test casing trimmed then trimmed
      else utf16 "https://" ++ trimmed)).map fun u =>
        let u := urls.bare u
        if urls.pathname u = [] then urls.setPathname u (utf16 "/") else u

/-- `stripTrailingSlashes`. -/
def stripTrailingSlashes (value : Utf16Text) : Utf16Text := value.rdropWhile (· = 0x2f)

/-- A host without `www.`. -/
def stripWww (host : Utf16Text) : Utf16Text :=
  (rx "^www\\.").replaceFirst casing.canonicalize host []

/-- The same host and protocol, with or without `www.`. -/
def sameOrigin (url origin : Utf16Text) : Bool :=
  match urls.parse url, urls.parse origin with
  | some a, some b =>
    stripWww casing (urls.host a) = stripWww casing (urls.host b) &&
      urls.protocol a = urls.protocol b
  | _, _ => false

/-- An address of the site, as it is visited. -/
def normalizeCandidateUrl (raw origin : Utf16Text) : Option Utf16Text :=
  (urls.resolve raw origin).bind fun u =>
    if urls.protocol u ≠ utf16 "https:" ∧ urls.protocol u ≠ utf16 "http:" then none
    else if !sameOrigin casing urls (urls.href u) origin then none
    else
      let u := urls.bare u
      let pathname := urls.pathname u
      if pathname ≠ utf16 "/" ∧ pathname.getLast? = some 0x2f then
        let stripped := stripTrailingSlashes pathname
        some (urls.href (urls.setPathname u (if stripped = [] then utf16 "/" else stripped)))
      else some (urls.href u)

/-- The path of an address. -/
def pathOf (url : Utf16Text) : Option Utf16Text :=
  (urls.parse url).map fun u => if urls.pathname u = [] then utf16 "/" else urls.pathname u

/-! ### Ranks -/

/-- `PRIORITY_PATTERNS`. -/
def priorityPatterns : List ((Utf16Text → Bool) × ℕ) :=
  [(fun p => p = utf16 "/" || p = [], 0),
    ((anyCase "^\\/about(\\/|$)").test casing, 10),
    ((anyCase "^\\/pricing(\\/|$)").test casing, 20),
    ((anyCase "^\\/(products?|features?|solutions?|platform)(\\/|$)").test casing, 30),
    ((anyCase "^\\/(faq|help|support|docs?)(\\/|$)").test casing, 40),
    ((anyCase "^\\/contact(\\/|$)").test casing, 50),
    ((anyCase "^\\/(team|company|customers|case-stud)").test casing, 60),
    ((anyCase "^\\/(blog|news|insights|resources?|guides?)(\\/|$)").test casing, 70)]

/-- The parts of a path between its slashes. -/
def pathParts (path : Utf16Text) : List Utf16Text := (path.splitOn 0x2f).filter (· ≠ [])

/-- How early an address is visited. -/
def rankOf (url origin : Utf16Text) : ℕ :=
  let path := (pathOf urls url).getD (utf16 "/")
  if url = origin ∨ url = origin ++ utf16 "/" then 0
  else
    match (priorityPatterns casing).find? fun entry => entry.1 path with
    | some entry => entry.2
    | none => 200 + (pathParts path).length * 5

/-- The order in which addresses are visited. -/
def rankUrls (addresses : List Utf16Text) (origin : Utf16Text) : List Utf16Text :=
  addresses.mergeSort fun a b =>
    let ra := rankOf casing urls a origin
    let rb := rankOf casing urls b origin
    if ra ≠ rb then ra < rb else a.length ≤ b.length

/-- `replace(/\b\w/g, (c) => c.toUpperCase())`. -/
def capitalizeWords (text : Utf16Text) : Utf16Text :=
  text.mapIdx fun i u => if Regex.isWordUnit u ∧ Regex.atBoundary text i then casing.upper u else u

/-- A title for a page that has none. -/
def guessTitleFromUrl (url : Utf16Text) : Utf16Text :=
  match urls.parse url with
  | none => utf16 "Page"
  | some u =>
    let tail := ((pathParts (urls.pathname u)).getLast?).getD (utf16 "Home")
    let spaced := (rx "[-_]+").replaceAll id tail (utf16 " ")
    let title := capitalizeWords casing
      ((rx "\\.[a-z0-9]+$").replaceFirst casing.canonicalize spaced [])
    if title = [] then utf16 "Home" else title

end Addresses

/-! ### Pages and sitemaps -/

section Texts

variable (casing : Casing)

/-- `decodeEntities`. -/
def decodeEntities (text : Utf16Text) : Utf16Text :=
  [("&amp;", "&"), ("&lt;", "<"), ("&gt;", ">"), ("&quot;", "\""), ("&#39;", "'")].foldl
    (fun text entity =>
      (rx entity.1).replaceAll casing.canonicalize text (utf16 entity.2)) text

/-- What the first group of a pattern has matched, for each match. -/
def capturesOf (pattern : String) (text : Utf16Text) : List Utf16Text :=
  ((rx pattern).matchAll casing.canonicalize text).filterMap fun m => m.captured text 1

/-- What the first group of a pattern has matched in its first match. -/
def captureOf (pattern : String) (text : Utf16Text) : Option Utf16Text :=
  ((rx pattern).exec casing.canonicalize text).bind fun m => m.captured text 1

/-- The addresses that a sitemap lists. -/
def extractSitemapLocs (xml : Utf16Text) : List Utf16Text :=
  (capturesOf casing "<loc>\\s*([^<\\s][^<]*?)\\s*<\\/loc>" xml).map (decodeEntities casing)

variable {U : Type} (urls : UrlParser U)

/-- `new URL(decodeEntities(raw), baseUrl).toString()`. -/
def resolveLink (baseUrl raw : Utf16Text) : Option Utf16Text :=
  (urls.resolve (decodeEntities casing raw) baseUrl).map urls.href

/-- The links of a page. -/
def extractLinks (html baseUrl : Utf16Text) : List Utf16Text :=
  (capturesOf casing "<a\\s[^>]*href\\s*=\\s*[\"']([^\"']+)[\"']" html).filterMap
    (resolveLink casing urls baseUrl)

/-- The address that a page refreshes to. The group around the pattern is for the match itself. -/
def metaRefreshTarget (html baseUrl : Utf16Text) : Option Utf16Text :=
  (captureOf casing "(<meta\\b[^>]*http-equiv\\s*=\\s*[\"']?refresh[\"']?[^>]*>)" html).bind
    fun tag => (captureOf casing "content\\s*=\\s*[\"']([^\"']*)[\"']" tag).bind
      fun content => (captureOf casing "url\\s*=\\s*(.+)$" (trimUnits content)).bind
        fun part => resolveLink casing urls baseUrl
          ((rx "^[\"']|[\"']$").replaceAll id (trimUnits part) [])

/-- The address that a page says it has. -/
def canonicalTarget (html baseUrl : Utf16Text) : Option Utf16Text :=
  (captureOf casing "(<link\\b[^>]*rel\\s*=\\s*[\"']?canonical[\"']?[^>]*>)" html).bind
    fun tag => (captureOf casing "href\\s*=\\s*[\"']([^\"']+)[\"']" tag).bind
      (resolveLink casing urls baseUrl)

/-- Where a page sends its readers. -/
def extractRedirectTarget (html baseUrl : Utf16Text) : Option Utf16Text :=
  (metaRefreshTarget casing urls html baseUrl).or (canonicalTarget casing urls html baseUrl)

/-- `countWords`. -/
def countWords (text : Utf16Text) : ℕ := ((text.splitOnP isBlankUnit).filter (· ≠ [])).length

end Texts

/-! ### The crawl -/

/-- `FetchedHtml`. -/
structure FetchedHtml where
  finalUrl : Utf16Text
  status : ℕ
  body : Utf16Text
  contentType : Utf16Text

/-- `fetched.contentType.includes('html')`. -/
def FetchedHtml.isHtml (fetched : FetchedHtml) : Bool :=
  (indexOf (utf16 "html") fetched.contentType 0).isSome

/-- A site: what a fetch of an address returns, or the message of the error that it throws. -/
abbrev Site := Utf16Text → Except Utf16Text FetchedHtml

/-- What a crawl is asked for. -/
structure CrawlOptions where
  url : Utf16Text
  maxPages : Option ℤ

/-- A page that was read. -/
structure CrawledPage where
  url : Utf16Text
  title : Utf16Text
  markdown : Utf16Text
  wordCount : ℕ

/-- Why a page was skipped. -/
inductive SkipReason where
  | fetchFailed
  | httpError
  | tooShort
  | blocked
  | timeout
  | robotsDisallow
  | wrongHost
  | extractFailed

/-- A page that was skipped. -/
structure SkippedPage where
  url : Utf16Text
  reason : SkipReason
  detail : Option Utf16Text

/-- What a crawl returns. -/
structure CrawlResult where
  siteUrl : Utf16Text
  siteTitle : Option Utf16Text
  pages : List CrawledPage
  skipped : List SkippedPage

/-- What the extractor makes of a page; an error is its message. -/
abbrev Extractor := Utf16Text → Utf16Text → Except Utf16Text (Option (Utf16Text × Utf16Text))

/-- The order in which the concurrent visits of some pages end. -/
structure CompletionOrder where
  order : List Utf16Text → List Utf16Text
  perm : ∀ targets, (order targets).Perm targets

/-- What the search for links knows: the addresses seen and found, those found at this depth, the
pages skipped, and what was fetched. -/
structure Discovery where
  visited : List Utf16Text
  found : List Utf16Text
  next : List Utf16Text
  skipped : List SkippedPage
  fetched : List Utf16Text

/-- An address is found. -/
def Discovery.find (st : Discovery) (url : Utf16Text) : Discovery :=
  { st with visited := st.visited ++ [url], found := st.found ++ [url], next := st.next ++ [url] }

/-- What a crawl ends with: its result, none if it throws, and the addresses that it has fetched. -/
structure CrawlOutcome where
  result : Option CrawlResult
  fetched : List Utf16Text

/-- `Math.max(1, Math.min(opts.maxPages ?? DEFAULT_MAX_PAGES, HARD_MAX_PAGES))`. -/
def pageLimit (maxPages : Option ℤ) : ℕ := (max 1 (min (maxPages.getD 25) 50)).toNat

section Crawl

variable {U : Type} (casing : Casing) (urls : UrlParser U) (extractor : Extractor)
  (completion : CompletionOrder) (site : Site)

/-- The rules of the site, if it has any. -/
def loadRobots (origin : Utf16Text) : RobotsRules :=
  match site (origin ++ utf16 "/robots.txt") with
  | .ok res =>
    if 200 ≤ res.status ∧ res.status < 300 then parseRobots casing.lower res.body
    else parseRobots casing.lower []
  | .error _ => parseRobots casing.lower []

/-- What a sitemap answers: its pages, or the sitemaps of an index that may be read for it. -/
def sitemapAnswer (origin url : Utf16Text) : Answer Utf16Text Utf16Text :=
  match site url with
  | .error _ => .items []
  | .ok res =>
    if res.status < 200 ∨ 300 ≤ res.status then .items []
    else
      let isIndex := (anyCase "<sitemapindex").test casing res.body
      let locs := extractSitemapLocs casing res.body
      if !isIndex then .items (locs.filter fun u => sameOrigin casing urls u origin)
      else .parts (locs.take 5)

/-- Sitemaps, one after the other; an index is read until it has 200 pages. -/
def readSitemaps (origin : Utf16Text) (fuel : ℕ) (sitemaps : List Utf16Text) :
    Option (Reading Utf16Text Utf16Text) :=
  readAll (sitemapAnswer casing urls site origin) 200 fuel sitemaps

/-- A new address of the site. -/
def addCandidate (origin : Utf16Text) (candidateSet : List Utf16Text) (raw : Utf16Text) :
    List Utf16Text :=
  match normalizeCandidateUrl casing urls raw origin with
  | none => candidateSet
  | some normalized =>
    if normalized ∈ candidateSet then candidateSet else candidateSet ++ [normalized]

/-- Whether robots.txt allows an address. -/
def allowsUrl (robots : RobotsRules) (url : Utf16Text) : Bool :=
  match pathOf urls url with
  | none => true
  | some path => isAllowed robots path

/-- The links of a page. -/
def linksOf (res : FetchedHtml) : List Utf16Text :=
  extractLinks casing urls res.body res.finalUrl ++
    (extractRedirectTarget casing urls res.body res.finalUrl).toList

/-- The loop over the links of a page; it ends once twice the limit is found. -/
def takeLinks (origin : Utf16Text) (robots : RobotsRules) (maxPages : ℕ) :
    Discovery → List Utf16Text → Discovery
  | st, [] => st
  | st, link :: links =>
    match normalizeCandidateUrl casing urls link origin with
    | none => takeLinks origin robots maxPages st links
    | some normalized =>
      if normalized ∈ st.visited then takeLinks origin robots maxPages st links
      else if !allowsUrl urls robots normalized then
        takeLinks origin robots maxPages
          { st with
            visited := st.visited ++ [normalized]
            skipped := st.skipped ++ [⟨normalized, .robotsDisallow, none⟩] } links
      else if maxPages * 2 ≤ (st.find normalized).found.length then st.find normalized
      else takeLinks origin robots maxPages (st.find normalized) links

/-- The loop over the pages of a depth. -/
def discoverPages (origin : Utf16Text) (robots : RobotsRules) (maxPages : ℕ) :
    Discovery → List Utf16Text → Discovery
  | st, [] => st
  | st, url :: frontier =>
    if maxPages * 2 ≤ st.found.length then st
    else
      let st := { st with fetched := st.fetched ++ [url] }
      match site url with
      | .error _ => discoverPages origin robots maxPages st frontier
      | .ok res =>
        if 400 ≤ res.status ∨ !res.isHtml then discoverPages origin robots maxPages st frontier
        else
          discoverPages origin robots maxPages
            (takeLinks casing urls origin robots maxPages st (linksOf casing urls res)) frontier

/-- The loop over the depths. -/
def discoverDepths (origin : Utf16Text) (robots : RobotsRules) (maxPages : ℕ) :
    ℕ → Discovery → List Utf16Text → Discovery
  | 0, st, _ => st
  | depth + 1, st, frontier =>
    let st := discoverPages casing urls site origin robots maxPages { st with next := [] } frontier
    if st.next = [] then st
    else discoverDepths origin robots maxPages depth st st.next

/-- The pages that links lead to, two deep. -/
def bfsDiscover (seed origin : Utf16Text) (robots : RobotsRules) (maxPages : ℕ)
    (skipped : List SkippedPage) : Discovery :=
  discoverDepths casing urls site origin robots maxPages 2 ⟨[seed], [seed], [], skipped, []⟩ [seed]

/-- The visit of a page, with what it adds to the result. -/
def visitPage (acc : CrawlResult) (target : Utf16Text) : CrawlResult :=
  let skip := fun (reason : SkipReason) (detail : Option Utf16Text) =>
    { acc with skipped := acc.skipped ++ [⟨target, reason, detail⟩] }
  match site target with
  | .error message =>
    skip (if (anyCase "timeout|aborted").test casing message then .timeout else .fetchFailed)
      (some message)
  | .ok fetched =>
    let http := some (utf16 "HTTP " ++ utf16 (toString fetched.status))
    if fetched.status = 403 ∨ fetched.status = 401 ∨ fetched.status = 429 then skip .blocked http
    else if 400 ≤ fetched.status then skip .httpError http
    else if !fetched.isHtml then
      skip .httpError (some (utf16 "non-HTML: " ++ fetched.contentType))
    else
      match extractor fetched.body fetched.finalUrl with
      | .error message => skip .extractFailed (some message)
      | .ok none => skip .extractFailed none
      | .ok (some (title, markdown)) =>
        let text := trimUnits markdown
        if text.length < 200 then
          skip .tooShort (some (utf16 (toString text.length) ++ utf16 " chars"))
        else
          { acc with
            pages := acc.pages ++ [{
              url := fetched.finalUrl
              title := if title = [] then guessTitleFromUrl casing urls target else title
              markdown := text
              wordCount := countWords text }]
            siteTitle :=
              if acc.siteTitle = none ∧ fetched.finalUrl = acc.siteUrl ∧ title ≠ [] then some title
              else acc.siteTitle }

/-- The crawl behind the sitemaps. -/
def crawlPages (siteUrl origin : Utf16Text) (robots : RobotsRules) (maxPages : ℕ)
    (candidateSet fetched : List Utf16Text) : CrawlOutcome :=
  let skipped := (candidateSet.filter fun u => !allowsUrl urls robots u).map fun u =>
    ⟨u, .robotsDisallow, none⟩
  let candidates := candidateSet.filter (allowsUrl urls robots)
  let st : Discovery :=
    if candidates.length < 2 then
      bfsDiscover casing urls site siteUrl origin robots maxPages skipped
    else ⟨[], [], [], skipped, []⟩
  let candidates := (st.found.foldl (addCandidate casing urls origin) candidateSet).filter
    (allowsUrl urls robots)
  let ranked := (rankUrls casing urls candidates origin).take maxPages
  let result := (completion.order ranked).foldl (visitPage casing urls extractor site)
    ⟨siteUrl, none, [], st.skipped⟩
  { result := some { result with
      pages := result.pages.mergeSort fun a b =>
        rankOf casing urls a.url origin ≤ rankOf casing urls b.url origin }
    fetched := fetched ++ st.fetched ++ ranked }

/-- The sitemaps that are tried if those of robots.txt name no other page. -/
def fallbackSitemaps (origin : Utf16Text) : List Utf16Text :=
  [origin ++ utf16 "/sitemap.xml", origin ++ utf16 "/sitemap_index.xml",
    origin ++ utf16 "/sitemap-pages.xml"]

/-- The start page and the pages that some sitemaps name. -/
def startCandidates (start : U) (listed : List Utf16Text) : List Utf16Text :=
  (urls.href start :: listed).foldl (addCandidate casing urls (urls.origin start)) []

/-- The crawl; `none` if the fuel does not last. -/
def crawl (fuel : ℕ) (opts : CrawlOptions) : Option CrawlOutcome :=
  match normalizeStartUrl casing urls opts.url with
  | none => some ⟨none, []⟩
  | some start => do
    let origin := urls.origin start
    let robots := loadRobots casing site origin
    let first ← readSitemaps casing urls site origin fuel robots.sitemaps
    let second ← readSitemaps casing urls site origin fuel
      (if (startCandidates casing urls start first.items).length ≤ 1 then fallbackSitemaps origin
        else [])
    some (crawlPages casing urls extractor completion site (urls.href start) origin robots
      (pageLimit opts.maxPages) (startCandidates casing urls start (first.items ++ second.items))
      ((origin ++ utf16 "/robots.txt") :: (first.visited ++ second.visited)))

/-! ### Bounds of a crawl -/

/-- A crawl ends, and fetches at most `n` times. -/
def EndsWithin (opts : CrawlOptions) (n : ℕ) : Prop :=
  ∃ fuel outcome, crawl casing urls extractor completion site fuel opts = some outcome ∧
    outcome.fetched.length ≤ n

/-- The number of sitemaps that robots.txt names. -/
def sitemapCount (opts : CrawlOptions) : ℕ :=
  match normalizeStartUrl casing urls opts.url with
  | none => 0
  | some start => (loadRobots casing site (urls.origin start)).sitemaps.length

/-- The crawl begins with a sitemap: one that robots.txt names, or a usual one if these name no page
other than the start page. -/
def ReadsFirst (opts : CrawlOptions) (origin sitemap : Utf16Text) : Prop :=
  ∃ start, normalizeStartUrl casing urls opts.url = some start ∧ origin = urls.origin start ∧
    (sitemap ∈ (loadRobots casing site origin).sitemaps ∨
      sitemap ∈ fallbackSitemaps origin ∧ ∃ listed,
        YieldAll (sitemapAnswer casing urls site origin) 200
          (loadRobots casing site origin).sitemaps listed ∧
        (startCandidates casing urls start listed).length ≤ 1)

/-- The chains of sitemap indexes below the sitemaps that the crawl begins with have at most `d`
members. -/
def IndexesWithin (opts : CrawlOptions) (d : ℕ) : Prop :=
  ∀ origin sitemap, ReadsFirst casing urls site opts origin sitemap →
    NestedWithin (sitemapAnswer casing urls site origin) 200 d sitemap

/-- What was found at a depth, `base` addresses being found before, is within the limit. -/
def FoundWithin (maxPages base : ℕ) (st : Discovery) : Prop :=
  st.found.length = base + st.next.length ∧ st.found.length ≤ maxPages * 2

variable {casing urls extractor completion site} {origin : Utf16Text} {robots : RobotsRules}
  {maxPages base : ℕ}

theorem foundWithin_find {st : Discovery} (h : FoundWithin maxPages base st)
    (hfew : st.found.length < maxPages * 2) (url : Utf16Text) :
    FoundWithin maxPages base (st.find url) := by
  obtain ⟨hfound, -⟩ := h
  simp only [FoundWithin, Discovery.find, List.length_append, List.length_singleton]
  omega

variable {links candidateSet : List Utf16Text} {opts : CrawlOptions}

theorem foundWithin_takeLinks {st : Discovery}
    (h : FoundWithin maxPages base st) (hfew : st.found.length < maxPages * 2) :
    FoundWithin maxPages base (takeLinks casing urls origin robots maxPages st links) := by
  induction links generalizing st with
  | nil => exact h
  | cons link links ih =>
    rw [takeLinks]
    split
    · exact ih h hfew
    · split_ifs with hvisited hallows hmany
      · exact ih h hfew
      · exact ih h hfew
      · exact foundWithin_find h hfew _
      · exact ih (foundWithin_find h hfew _) (Nat.not_le.1 hmany)

theorem takeLinks_fetched {st : Discovery} :
    (takeLinks casing urls origin robots maxPages st links).fetched = st.fetched := by
  induction links generalizing st with
  | nil => rfl
  | cons link links ih =>
    rw [takeLinks]
    split
    · exact ih
    · split_ifs
      · exact ih
      · exact ih
      · rfl
      · exact ih

/-- A depth fetches each page of its frontier at most once. -/
theorem discoverPages_spec {frontier : List Utf16Text} {st : Discovery}
    (h : FoundWithin maxPages base st) :
    FoundWithin maxPages base
        (discoverPages casing urls site origin robots maxPages st frontier) ∧
      (discoverPages casing urls site origin robots maxPages st frontier).fetched.length ≤
        st.fetched.length + frontier.length := by
  induction frontier generalizing st with
  | nil => exact ⟨h, Nat.le_add_right _ _⟩
  | cons url frontier ih =>
    have hnext : ∀ {st' : Discovery}, FoundWithin maxPages base st' →
        st'.fetched = st.fetched ++ [url] →
        FoundWithin maxPages base
            (discoverPages casing urls site origin robots maxPages st' frontier) ∧
          (discoverPages casing urls site origin robots maxPages st' frontier).fetched.length ≤
            st.fetched.length + (url :: frontier).length := by
      intro st' hst' hfetched
      obtain ⟨hwithin, hle⟩ := ih hst'
      refine ⟨hwithin, hle.trans ?_⟩
      rw [hfetched, List.length_append, List.length_singleton, List.length_cons]
      omega
    rw [discoverPages]
    split_ifs with hmany
    · exact ⟨h, Nat.le_add_right _ _⟩
    · simp only
      split
      · exact hnext h rfl
      · split_ifs
        · exact hnext h rfl
        · exact hnext (foundWithin_takeLinks h (Nat.not_le.1 hmany)) takeLinks_fetched

/-- **The search for links fetches at most twice the limit**: the start page, and at the second
depth at most what was found at the first. -/
theorem bfsDiscover_fetched_le {seed : Utf16Text} {skipped : List SkippedPage}
    (hmax : 1 ≤ maxPages) :
    (bfsDiscover casing urls site seed origin robots maxPages skipped).fetched.length ≤
      maxPages * 2 := by
  have hstart : FoundWithin maxPages 1 ⟨[seed], [seed], [], skipped, []⟩ :=
    ⟨rfl, by rw [List.length_singleton]; omega⟩
  have hfirst := @discoverPages_spec U casing urls site origin robots maxPages 1 [seed] _ hstart
  rw [bfsDiscover, discoverDepths]
  generalize discoverPages casing urls site origin robots maxPages
    ⟨[seed], [seed], [], skipped, []⟩ [seed] = first at hfirst
  obtain ⟨⟨hfound, hwithin⟩, hfetched⟩ := hfirst
  simp only [List.length_nil, List.length_singleton, Nat.zero_add] at hfetched
  split_ifs with hnone
  · omega
  · have hsecond := @discoverPages_spec U casing urls site origin robots maxPages
      first.found.length first.next { first with next := [] } ⟨rfl, hwithin⟩
    rw [discoverDepths]
    generalize discoverPages casing urls site origin robots maxPages { first with next := [] }
      first.next = second at hsecond
    obtain ⟨-, hfetched'⟩ := hsecond
    simp only at hfetched'
    split_ifs
    · omega
    · rw [discoverDepths]
      omega

theorem crawlPages_fetched_le {siteUrl : Utf16Text} {fetched : List Utf16Text}
    (hmax : 1 ≤ maxPages) :
    (crawlPages casing urls extractor completion site siteUrl origin robots maxPages candidateSet
      fetched).fetched.length ≤ fetched.length + maxPages * 3 := by
  simp only [crawlPages, List.length_append, List.length_take]
  split_ifs
  · have hle := @bfsDiscover_fetched_le U casing urls site origin robots maxPages siteUrl
      ((candidateSet.filter fun u => !allowsUrl urls robots u).map fun u =>
        ⟨u, .robotsDisallow, none⟩) hmax
    omega
  · simp only [List.length_nil]
    omega

theorem le_crawlPages_fetched {siteUrl : Utf16Text} {fetched : List Utf16Text} :
    fetched.length ≤ (crawlPages casing urls extractor completion site siteUrl origin robots
      maxPages candidateSet fetched).fetched.length := by
  simp only [crawlPages, List.length_append, Nat.add_assoc]
  exact Nat.le_add_right _ _

/-! ### The bound and the chains -/

theorem one_le_pageLimit (maxPages : Option ℤ) : 1 ≤ pageLimit maxPages := by
  rw [pageLimit]
  omega

/-- An index has at most five parts. -/
theorem sitemapAnswer_parts_le {url : Utf16Text} {parts : List Utf16Text}
    (h : sitemapAnswer casing urls site origin url = .parts parts) : parts.length ≤ 5 := by
  rw [sitemapAnswer] at h
  split at h
  · cases h
  · simp only at h
    split_ifs at h
    rw [← Answer.parts.inj h]
    exact List.length_take_le _ _

/-- What a crawl fetches at most, if the chains of sitemap indexes have at most `d` members. -/
def crawlBound (maxPages : Option ℤ) (sitemaps d : ℕ) : ℕ :=
  1 + (sitemaps + 3) * nestSize 5 d + pageLimit maxPages * 3

/-- **A crawl whose chains of indexes are bounded ends**, and the bound says how often it
fetches. -/
theorem endsWithin_of_indexesWithin {d : ℕ} (h : IndexesWithin casing urls site opts d) :
    EndsWithin casing urls extractor completion site opts
      (crawlBound opts.maxPages (sitemapCount casing urls site opts) d) := by
  cases hstart : normalizeStartUrl casing urls opts.url with
  | none =>
    refine ⟨0, ⟨none, []⟩, ?_, Nat.zero_le _⟩
    rw [crawl, hstart]
  | some start =>
    have hcount : sitemapCount casing urls site opts =
        (loadRobots casing site (urls.origin start)).sitemaps.length := by
      rw [sitemapCount, hstart]
    obtain ⟨first, hfirst, hfirstle⟩ := exists_readAll (by omega)
      (fun _ _ => sitemapAnswer_parts_le) fun sitemap hmem =>
        h (urls.origin start) sitemap ⟨start, hstart, rfl, .inl hmem⟩
    have hnested : ∀ sitemap ∈ (if (startCandidates casing urls start first.items).length ≤ 1 then
        fallbackSitemaps (urls.origin start) else []),
        NestedWithin (sitemapAnswer casing urls site (urls.origin start)) 200 d sitemap := by
      intro sitemap hmem
      split_ifs at hmem with hfew
      · exact h _ sitemap ⟨start, hstart, rfl,
          .inr ⟨hmem, first.items, yieldAll_of_readAll hfirst, hfew⟩⟩
      · cases hmem
    obtain ⟨second, hsecond, hsecondle⟩ := exists_readAll (by omega)
      (fun _ _ => sitemapAnswer_parts_le) hnested
    have hcrawl : crawl casing urls extractor completion site d opts =
        some (crawlPages casing urls extractor completion site (urls.href start)
          (urls.origin start) (loadRobots casing site (urls.origin start))
          (pageLimit opts.maxPages)
          (startCandidates casing urls start (first.items ++ second.items))
          ((urls.origin start ++ utf16 "/robots.txt") :: (first.visited ++ second.visited))) := by
      rw [crawl, hstart]
      simp only [readSitemaps, hfirst, hsecond, Option.bind_eq_bind, Option.bind_some]
    have hthree : (if (startCandidates casing urls start first.items).length ≤ 1 then
        fallbackSitemaps (urls.origin start) else []).length ≤ 3 := by
      split_ifs
      · exact Nat.le_refl 3
      · exact Nat.zero_le 3
    have hmul := Nat.mul_le_mul_right (nestSize 5 d) hthree
    refine ⟨d, _, hcrawl, (crawlPages_fetched_le (one_le_pageLimit opts.maxPages)).trans ?_⟩
    rw [List.length_cons, List.length_append, crawlBound, hcount, Nat.add_mul]
    omega

/-- **A crawl that ends bounds the chains of indexes**, by the number of its fetches. -/
theorem indexesWithin_of_endsWithin {n : ℕ}
    (h : EndsWithin casing urls extractor completion site opts n) :
    IndexesWithin casing urls site opts n := by
  obtain ⟨fuel, outcome, hcrawl, hle⟩ := h
  rintro origin sitemap ⟨start, hstart, rfl, hmem⟩
  rw [crawl, hstart] at hcrawl
  simp only [readSitemaps, Option.bind_eq_bind, Option.bind_eq_some_iff, Option.some.injEq]
    at hcrawl
  obtain ⟨first, hfirst, second, hsecond, rfl⟩ := hcrawl
  have hfetched := le_crawlPages_fetched.trans hle
  rw [List.length_cons, List.length_append] at hfetched
  rcases hmem with hmem | ⟨hmem, listed, hlisted, hfew⟩
  · exact (nestedWithin_of_readAll hfirst hmem).mono (by omega)
  · obtain rfl := hlisted.unique (yieldAll_of_readAll hfirst)
    rw [if_pos hfew] at hsecond
    exact (nestedWithin_of_readAll hsecond hmem).mono (by omega)

/-- **Crawls of a kind are bounded exactly if their chains of indexes are**: there is a bound of the
fetches that depends on the page limit and the number of sitemaps alone if there is such a bound
of the chains. -/
theorem crawl_bounded_iff (casing : Casing) (urls : UrlParser U) (extractor : Extractor)
    (completion : CompletionOrder) (kind : Site → CrawlOptions → Prop) :
    (∃ bound : Option ℤ → ℕ → ℕ, ∀ site opts, kind site opts →
      EndsWithin casing urls extractor completion site opts
        (bound opts.maxPages (sitemapCount casing urls site opts))) ↔
    ∃ depth : Option ℤ → ℕ → ℕ, ∀ site opts, kind site opts →
      IndexesWithin casing urls site opts
        (depth opts.maxPages (sitemapCount casing urls site opts)) := by
  constructor
  · rintro ⟨bound, hbound⟩
    exact ⟨bound, fun site opts hkind => indexesWithin_of_endsWithin (hbound site opts hkind)⟩
  · rintro ⟨depth, hdepth⟩
    exact ⟨fun maxPages sitemaps => crawlBound maxPages sitemaps (depth maxPages sitemaps),
      fun site opts hkind => endsWithin_of_indexesWithin (hdepth site opts hkind)⟩

end Crawl

/-! ### An index that lists itself -/

/-- An address `https://host/path`, without a query and a fragment. -/
def plainUrl (text : Utf16Text) : Option (Utf16Text × Utf16Text) :=
  if (utf16 "https://").isPrefixOf text then
    let path := (text.drop 8).dropWhile (· ≠ 0x2f)
    some ((text.drop 8).takeWhile (· ≠ 0x2f), if path = [] then utf16 "/" else path)
  else none

/-- The parser of such addresses. -/
def plainUrls : UrlParser (Utf16Text × Utf16Text) where
  parse := plainUrl
  resolve text _ := plainUrl text
  href u := utf16 "https://" ++ u.1 ++ u.2
  origin u := utf16 "https://" ++ u.1
  protocol _ := utf16 "https:"
  host u := u.1
  pathname u := u.2
  bare u := u
  setPathname u path := (u.1, path)

/-- A site whose robots.txt names an index that lists itself. -/
def selfListingSite : Site := fun url =>
  .ok {
    finalUrl := url
    status := 200
    body :=
      if url = utf16 "https://a.example/robots.txt" then
        utf16 "Sitemap: https://a.example/s.xml"
      else utf16 "<sitemapindex><loc>https://a.example/s.xml</loc></sitemapindex>"
    contentType := utf16 "text/xml" }

/-- The crawl of that site does not end. -/
theorem self_listing_index_unbounded :
    ¬ ∃ bound : Option ℤ → ℕ → ℕ, ∀ site opts,
      EndsWithin asciiCasing plainUrls (fun _ _ => .ok none) ⟨id, fun _ => .refl _⟩ site opts
        (bound opts.maxPages (sitemapCount asciiCasing plainUrls site opts)) := by
  rintro ⟨bound, hbound⟩
  have hstart : normalizeStartUrl asciiCasing plainUrls (utf16 "https://a.example/") =
      some (utf16 "a.example", utf16 "/") := by decide +kernel
  have hrobots : utf16 "https://a.example/s.xml" ∈
      (loadRobots asciiCasing selfListingSite (utf16 "https://a.example")).sitemaps := by
    decide +kernel
  have hindex : sitemapAnswer asciiCasing plainUrls selfListingSite (utf16 "https://a.example")
      (utf16 "https://a.example/s.xml") = .parts [utf16 "https://a.example/s.xml"] := by
    have htest : (anyCase "<sitemapindex").test asciiCasing (utf16
        "<sitemapindex><loc>https://a.example/s.xml</loc></sitemapindex>") = true := by
      decide +kernel
    have hlocs : (extractSitemapLocs asciiCasing (utf16
        "<sitemapindex><loc>https://a.example/s.xml</loc></sitemapindex>")).take 5 =
          [utf16 "https://a.example/s.xml"] := by
      decide +kernel
    have hurl : utf16 "https://a.example/s.xml" ≠ utf16 "https://a.example/robots.txt" := by
      decide +kernel
    simp [sitemapAnswer, selfListingSite, hurl, htest, hlocs]
  have hnever : ∀ d, ¬ NestedWithin (sitemapAnswer asciiCasing plainUrls selfListingSite
      (utf16 "https://a.example")) 200 d (utf16 "https://a.example/s.xml") := by
    intro d
    induction d with
    | zero => exact id
    | succ d ih => exact fun h => ih (h _ ⟨[], [], [], hindex, .nil [], by decide⟩)
  exact hnever _ (indexesWithin_of_endsWithin
    (hbound selfListingSite ⟨utf16 "https://a.example/", none⟩) (utf16 "https://a.example") _
      ⟨_, hstart, rfl, .inl hrobots⟩)

end Munin.Agent
