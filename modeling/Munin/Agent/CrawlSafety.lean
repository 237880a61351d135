import Mathlib.Data.List.Nodup
import Mathlib.Data.List.Pairwise
import Munin.Agent.Crawl

/-!
# What a crawl returns

The pages to visit are selected among candidates that are checked: they are on the origin,
robots.txt allows them, and none is there twice. What is returned for a page, though, is the URL at
which its fetch has ended.

* **`selectedPages`** — the pages that a crawl selects.
* **`keptPage`** — the page that a visit adds to the result, if it does.
* **`SafeResult`** — the pages of a result are allowed pages of the site, none twice and not too
  many, and each page that was selected is accounted for once.
* **`RedirectsStay`** — a kept fetch that ends elsewhere ends at an allowed URL of the site, where
  no other kept fetch ends.
* **`safeResult_iff`** — the result of a crawl is safe exactly if its redirects stay.
-/

namespace Munin.Agent

open Foundations Conversations

/-- A protocol of web pages. -/
def IsWebProtocol (protocol : Utf16Text) : Prop :=
  protocol = utf16 "https:" ∨ protocol = utf16 "http:"

/-- What is relied on of `URL`: the text of a web address is read back with its host and protocol,
and taking the query off or setting the path changes neither. -/
structure UrlParser.Lawful {U : Type} (urls : UrlParser U) : Prop where
  parse_href : ∀ u, IsWebProtocol (urls.protocol u) → ∃ v, urls.parse (urls.href u) = some v ∧
    urls.host v = urls.host u ∧ urls.protocol v = urls.protocol u
  host_bare : ∀ u, urls.host (urls.bare u) = urls.host u
  protocol_bare : ∀ u, urls.protocol (urls.bare u) = urls.protocol u
  host_setPathname : ∀ u path, urls.host (urls.setPathname u path) = urls.host u
  protocol_setPathname : ∀ u path, urls.protocol (urls.setPathname u path) = urls.protocol u

section Selection

variable {U : Type} (casing : Casing) (urls : UrlParser U) (extractor : Extractor)
  (completion : CompletionOrder) (site : Site)

/-- The search for links behind the sitemaps, if they give few pages. -/
def discovered (siteUrl origin : Utf16Text) (robots : RobotsRules) (maxPages : ℕ)
    (candidateSet : List Utf16Text) : Discovery :=
  let skipped : List SkippedPage := (candidateSet.filter fun u => !allowsUrl urls robots u).map
    fun u => ⟨u, .robotsDisallow, none⟩
  if (candidateSet.filter (allowsUrl urls robots)).length < 2 then
    bfsDiscover casing urls site siteUrl origin robots maxPages skipped
  else ⟨[], [], [], skipped, []⟩

/-- The candidates that robots.txt allows, the most important first, up to the limit. -/
def selectedPages (siteUrl origin : Utf16Text) (robots : RobotsRules) (maxPages : ℕ)
    (candidateSet : List Utf16Text) : List Utf16Text :=
  (rankUrls casing urls
    (((discovered casing urls site siteUrl origin robots maxPages candidateSet).found.foldl
      (addCandidate casing urls origin) candidateSet).filter (allowsUrl urls robots))
    origin).take maxPages

/-- A crawl starts at a URL and selects some pages. -/
def Selects (fuel : ℕ) (opts : CrawlOptions) (start : U) (selected : List Utf16Text) : Prop :=
  normalizeStartUrl casing urls opts.url = some start ∧
    ∃ first second,
      readSitemaps casing urls site (urls.origin start) fuel
        (loadRobots casing site (urls.origin start)).sitemaps = some first ∧
      readSitemaps casing urls site (urls.origin start) fuel
        (if (startCandidates casing urls start first.items).length ≤ 1 then
          fallbackSitemaps (urls.origin start) else []) = some second ∧
      selected = selectedPages casing urls site (urls.href start) (urls.origin start)
        (loadRobots casing site (urls.origin start)) (pageLimit opts.maxPages)
        (startCandidates casing urls start (first.items ++ second.items))

/-- The page that the visit of an address adds to the result. -/
def keptPage (target : Utf16Text) : Option CrawledPage :=
  (visitPage casing urls extractor site ⟨[], none, [], []⟩ target).pages.head?

/-- The URL of a page is on the site and allowed. -/
def AllowedOn (origin : Utf16Text) (robots : RobotsRules) (url : Utf16Text) : Prop :=
  sameOrigin casing urls url origin = true ∧ allowsUrl urls robots url = true

/-- **A result has allowed pages of the site only.** -/
structure SafeResult (opts : CrawlOptions) (start : U) (selected : List Utf16Text)
    (result : CrawlResult) : Prop where
  allowed : ∀ page ∈ result.pages,
    AllowedOn casing urls (urls.origin start) (loadRobots casing site (urls.origin start)) page.url
  distinct : (result.pages.map (·.url)).Nodup
  few : result.pages.length ≤ pageLimit opts.maxPages
  /-- The pages are those of the addresses whose visit keeps a page, … -/
  pages : result.pages.Perm (selected.filterMap (keptPage casing urls extractor site))
  /-- … and each other address is skipped once. -/
  skipped : ∀ target ∈ selected, result.skipped.countP (·.url = target) =
    if (keptPage casing urls extractor site target).isSome then 0 else 1

/-- **A kept fetch that ends at another URL than its own ends at an allowed URL of the site**, where
no other kept fetch ends. -/
def RedirectsStay (start : U) (selected : List Utf16Text) : Prop :=
  ∀ target ∈ selected, ∀ page, keptPage casing urls extractor site target = some page →
    page.url ≠ target →
      AllowedOn casing urls (urls.origin start) (loadRobots casing site (urls.origin start))
        page.url ∧
      ∀ other ∈ selected, other ≠ target → ∀ otherPage,
        keptPage casing urls extractor site other = some otherPage → otherPage.url ≠ page.url

variable {casing urls extractor completion site}

/-! ### Candidates -/

/-- A candidate is on the origin. -/
theorem sameOrigin_of_normalizeCandidateUrl (hurls : urls.Lawful) {raw origin url : Utf16Text}
    (h : normalizeCandidateUrl casing urls raw origin = some url) :
    sameOrigin casing urls url origin = true := by
  obtain ⟨u, -, h⟩ := Option.bind_eq_some_iff.1 h
  split_ifs at h with hprotocol horigin
  have hweb : IsWebProtocol (urls.protocol u) := by
    by_contra hno
    exact hprotocol (not_or.1 hno)
  have hkeeps : ∀ v, urls.host v = urls.host u → urls.protocol v = urls.protocol u →
      sameOrigin casing urls (urls.href v) origin = true := by
    intro v hhost hproto
    obtain ⟨a, ha, hahost, haproto⟩ := hurls.parse_href u hweb
    obtain ⟨b, hb, hbhost, hbproto⟩ := hurls.parse_href v (hproto ▸ hweb)
    rw [sameOrigin, ha, Bool.not_eq_true, Bool.not_eq_false'] at horigin
    rw [sameOrigin, hb]
    cases hparse : urls.parse origin with
    | none =>
      rw [hparse] at horigin
      cases horigin
    | some o =>
      rw [hparse] at horigin
      simp only [hahost, haproto] at horigin
      simp only [hbhost, hbproto, hhost, hproto]
      exact horigin
  simp only at h
  split_ifs at h
  all_goals obtain rfl := Option.some.inj h
  · exact hkeeps _ ((hurls.host_setPathname ..).trans (hurls.host_bare u))
      ((hurls.protocol_setPathname ..).trans (hurls.protocol_bare u))
  · exact hkeeps _ ((hurls.host_setPathname ..).trans (hurls.host_bare u))
      ((hurls.protocol_setPathname ..).trans (hurls.protocol_bare u))
  · exact hkeeps _ (hurls.host_bare u) (hurls.protocol_bare u)

/-- A set of candidates: on the origin, none twice. -/
structure CandidateSet (casing : Casing) (urls : UrlParser U) (origin : Utf16Text)
    (candidates : List Utf16Text) : Prop where
  onOrigin : ∀ url ∈ candidates, sameOrigin casing urls url origin = true
  nodup : candidates.Nodup

variable {origin : Utf16Text} {robots : RobotsRules} {maxPages : ℕ} {candidates : List Utf16Text}

theorem CandidateSet.add (hurls : urls.Lawful) (h : CandidateSet casing urls origin candidates)
    (raw : Utf16Text) : CandidateSet casing urls origin
      (addCandidate casing urls origin candidates raw) := by
  unfold addCandidate
  split
  · exact h
  · rename_i url hurl
    split_ifs with hmem
    · exact h
    · refine ⟨fun other hother => ?_, List.nodup_append.2 ⟨h.nodup, List.nodup_singleton _, ?_⟩⟩
      · rcases List.mem_append.1 hother with hold | hnew
        · exact h.onOrigin other hold
        · exact List.mem_singleton.1 hnew ▸ sameOrigin_of_normalizeCandidateUrl hurls hurl
      · rintro a ha _ hb rfl
        exact hmem (List.mem_singleton.1 hb ▸ ha)

theorem CandidateSet.foldl (hurls : urls.Lawful) (h : CandidateSet casing urls origin candidates)
    (raws : List Utf16Text) :
    CandidateSet casing urls origin (raws.foldl (addCandidate casing urls origin) candidates) := by
  induction raws generalizing candidates with
  | nil => exact h
  | cons raw raws ih => exact ih (h.add hurls raw)

/-- **The selected pages** are allowed candidates, none twice, and not more than the limit. -/
theorem selectedPages_spec (hurls : urls.Lawful) {siteUrl : Utf16Text}
    (h : CandidateSet casing urls origin candidates) :
    (∀ url ∈ selectedPages casing urls site siteUrl origin robots maxPages candidates,
      AllowedOn casing urls origin robots url) ∧
    (selectedPages casing urls site siteUrl origin robots maxPages candidates).Nodup ∧
    (selectedPages casing urls site siteUrl origin robots maxPages candidates).length ≤
      maxPages := by
  have hset := h.foldl hurls
    (discovered casing urls site siteUrl origin robots maxPages candidates).found
  refine ⟨fun url hurl => ?_, ?_, List.length_take_le _ _⟩
  · have hmem := List.mem_filter.1 (List.mem_mergeSort.1 (List.mem_of_mem_take hurl))
    exact ⟨hset.onOrigin url hmem.1, hmem.2⟩
  · refine List.Nodup.sublist (List.take_sublist _ _) ?_
    exact (List.mergeSort_perm _ _).nodup_iff.2 (hset.nodup.filter _)

/-! ### What is skipped before the visits -/

/-- What robots.txt does not allow was skipped, and nothing else. -/
def SkipsDisallowed (urls : UrlParser U) (robots : RobotsRules) (skipped : List SkippedPage) :
    Prop :=
  ∀ entry ∈ skipped, allowsUrl urls robots entry.url = false

theorem skipsDisallowed_takeLinks {links : List Utf16Text} {st : Discovery}
    (h : SkipsDisallowed urls robots st.skipped) :
    SkipsDisallowed urls robots
      (takeLinks casing urls origin robots maxPages st links).skipped := by
  induction links generalizing st with
  | nil => exact h
  | cons link links ih =>
    rw [takeLinks]
    split
    · exact ih h
    · rename_i url _
      split_ifs with hvisited hallows
      · exact ih h
      · refine ih fun entry hentry => ?_
        rcases List.mem_append.1 hentry with hold | hnew
        · exact h entry hold
        · rw [List.mem_singleton.1 hnew]
          exact (Bool.not_eq_true' _).mp hallows
      · exact h
      · exact ih h

theorem skipsDisallowed_discoverPages {frontier : List Utf16Text} {st : Discovery}
    (h : SkipsDisallowed urls robots st.skipped) :
    SkipsDisallowed urls robots
      (discoverPages casing urls site origin robots maxPages st frontier).skipped := by
  induction frontier generalizing st with
  | nil => exact h
  | cons url frontier ih =>
    rw [discoverPages]
    split_ifs
    · exact h
    · simp only
      split
      · exact ih h
      · split_ifs
        · exact ih h
        · exact ih (skipsDisallowed_takeLinks h)

theorem skipsDisallowed_discoverDepths {depth : ℕ} {frontier : List Utf16Text} {st : Discovery}
    (h : SkipsDisallowed urls robots st.skipped) :
    SkipsDisallowed urls robots
      (discoverDepths casing urls site origin robots maxPages depth st frontier).skipped := by
  induction depth generalizing st frontier with
  | zero => exact h
  | succ depth ih =>
    have hpages : SkipsDisallowed urls robots (discoverPages casing urls site origin robots
        maxPages { st with next := [] } frontier).skipped := skipsDisallowed_discoverPages h
    rw [discoverDepths]
    split_ifs
    · exact hpages
    · exact ih hpages

theorem skipsDisallowed_discovered {siteUrl : Utf16Text} :
    SkipsDisallowed urls robots
      (discovered casing urls site siteUrl origin robots maxPages candidates).skipped := by
  have hfirst : SkipsDisallowed urls robots
      ((candidates.filter fun u => !allowsUrl urls robots u).map fun u =>
        ⟨u, .robotsDisallow, none⟩) := by
    intro entry hentry
    obtain ⟨u, hu, rfl⟩ := List.mem_map.1 hentry
    exact (Bool.not_eq_true' _).mp (List.mem_filter.1 hu).2
  unfold discovered
  split_ifs
  · exact skipsDisallowed_discoverDepths hfirst
  · exact hfirst

/-! ### The visits -/

/-- A visit keeps its page, or skips its address. -/
theorem visitPage_cases (acc : CrawlResult) (target : Utf16Text) :
    (∃ page, keptPage casing urls extractor site target = some page ∧
      (visitPage casing urls extractor site acc target).pages = acc.pages ++ [page] ∧
      (visitPage casing urls extractor site acc target).skipped = acc.skipped) ∨
    (keptPage casing urls extractor site target = none ∧
      (visitPage casing urls extractor site acc target).pages = acc.pages ∧
      ∃ reason detail, (visitPage casing urls extractor site acc target).skipped =
        acc.skipped ++ [⟨target, reason, detail⟩]) := by
  delta keptPage visitPage
  cases site target with
  | error message => exact .inr ⟨rfl, rfl, _, _, rfl⟩
  | ok fetched =>
    dsimp only
    split_ifs with hblocked hstatus hhtml
    · exact .inr ⟨rfl, rfl, _, _, rfl⟩
    · exact .inr ⟨rfl, rfl, _, _, rfl⟩
    · exact .inr ⟨rfl, rfl, _, _, rfl⟩
    · cases extractor fetched.body fetched.finalUrl with
      | error message => exact .inr ⟨rfl, rfl, _, _, rfl⟩
      | ok extracted =>
        cases extracted with
        | none => exact .inr ⟨rfl, rfl, _, _, rfl⟩
        | some text =>
          dsimp only
          by_cases hshort : (trimUnits text.2).length < 200
          · rw [if_pos hshort, if_pos hshort]
            exact .inr ⟨rfl, rfl, _, _, rfl⟩
          · rw [if_neg hshort, if_neg hshort]
            exact .inl ⟨_, rfl, rfl, rfl⟩

/-- The visits keep the pages of their addresses, in order. -/
theorem foldl_visitPage_pages (targets : List Utf16Text) (acc : CrawlResult) :
    (targets.foldl (visitPage casing urls extractor site) acc).pages =
      acc.pages ++ targets.filterMap (keptPage casing urls extractor site) := by
  induction targets generalizing acc with
  | nil => exact (List.append_nil _).symm
  | cons target targets ih =>
    rw [List.foldl_cons, ih]
    rcases @visitPage_cases U casing urls extractor site acc target with
      ⟨page, hkept, hpages, -⟩ | ⟨hnone, hpages, -⟩
    · rw [hpages, List.filterMap_cons_some hkept, List.append_assoc, List.singleton_append]
    · rw [hpages, List.filterMap_cons_none hnone]

/-- The visits skip an address as often as they come to it and keep no page. -/
theorem foldl_visitPage_skipped (targets : List Utf16Text) (acc : CrawlResult)
    (target : Utf16Text) :
    (targets.foldl (visitPage casing urls extractor site) acc).skipped.countP (·.url = target) =
      acc.skipped.countP (·.url = target) +
        if (keptPage casing urls extractor site target).isSome then 0
        else targets.count target := by
  induction targets generalizing acc with
  | nil => simp
  | cons other targets ih =>
    rw [List.foldl_cons, ih]
    rcases @visitPage_cases U casing urls extractor site acc other with
      ⟨page, hkept, -, hskipped⟩ | ⟨hnone, -, reason, detail, hskipped⟩
    · rw [hskipped]
      by_cases heq : other = target
      · subst heq
        rw [hkept, Option.isSome_some, if_pos rfl, if_pos rfl]
      · rw [List.count_cons_of_ne heq]
    · rw [hskipped, List.countP_append, List.countP_singleton]
      by_cases heq : other = target
      · subst heq
        rw [hnone, List.count_cons_self]
        simp only [decide_true, if_true, Option.isSome_none, Bool.false_eq_true, if_false]
        omega
      · rw [List.count_cons_of_ne heq]
        simp only [heq, decide_false, Bool.false_eq_true, if_false, Nat.add_zero]

/-! ### The result -/

theorem candidateSet_startCandidates (hurls : urls.Lawful) (start : U)
    (listed : List Utf16Text) : CandidateSet casing urls (urls.origin start)
      (startCandidates casing urls start listed) :=
  CandidateSet.foldl hurls ⟨(fun _ h => by cases h), List.nodup_nil⟩ (urls.href start :: listed)

variable {fuel : ℕ} {opts : CrawlOptions} {start : U} {selected fetched : List Utf16Text}
  {result : CrawlResult}

/-- The result of the crawl behind the sitemaps is that of the visits of the selected pages. -/
theorem crawlPages_spec (hurls : urls.Lawful) {siteUrl : Utf16Text} {fetched' : List Utf16Text}
    (hset : CandidateSet casing urls origin candidates)
    (h : crawlPages casing urls extractor completion site siteUrl origin robots maxPages candidates
      fetched = ⟨some result, fetched'⟩) :
    result.pages.Perm
      ((selectedPages casing urls site siteUrl origin robots maxPages candidates).filterMap
        (keptPage casing urls extractor site)) ∧
    ∀ target ∈ selectedPages casing urls site siteUrl origin robots maxPages candidates,
      result.skipped.countP (·.url = target) =
        if (keptPage casing urls extractor site target).isSome then 0 else 1 := by
  obtain ⟨hallowed, hnodup, -⟩ := @selectedPages_spec U casing urls site origin robots maxPages
    candidates hurls siteUrl hset
  have hperm := completion.perm
    (selectedPages casing urls site siteUrl origin robots maxPages candidates)
  cases h
  refine ⟨(List.mergeSort_perm _ _).trans ?_, fun target htarget => ?_⟩
  · exact (foldl_visitPage_pages _ _).symm ▸ hperm.filterMap _
  · have hnone : (discovered casing urls site siteUrl origin robots maxPages
        candidates).skipped.countP (·.url = target) = 0 := by
      refine List.countP_eq_zero.2 fun entry hentry hurl => ?_
      have hno := skipsDisallowed_discovered entry hentry
      rw [of_decide_eq_true hurl, (hallowed target htarget).2] at hno
      cases hno
    have hone : (completion.order (selectedPages casing urls site siteUrl origin robots maxPages
        candidates)).count target = 1 :=
      (hperm.count_eq target).trans (List.count_eq_one_of_mem hnodup htarget)
    have hskips := @foldl_visitPage_skipped U casing urls extractor site
      (completion.order (selectedPages casing urls site siteUrl origin robots maxPages candidates))
      ⟨siteUrl, none, [], (discovered casing urls site siteUrl origin robots maxPages
        candidates).skipped⟩ target
    rw [hone, hnone, Nat.zero_add] at hskips
    exact hskips

/-- The pages of a result are the kept ones of the selected pages. -/
theorem mem_pages_iff
    (h : result.pages.Perm (selected.filterMap (keptPage casing urls extractor site)))
    {page : CrawledPage} : page ∈ result.pages ↔
      ∃ target ∈ selected, keptPage casing urls extractor site target = some page :=
  h.mem_iff.trans List.mem_filterMap

/-- Kept fetches that end at one URL are one fetch, if redirects stay. -/
theorem distinct_iff (hnodup : selected.Nodup)
    (h : result.pages.Perm (selected.filterMap (keptPage casing urls extractor site))) :
    (result.pages.map (·.url)).Nodup ↔
      ∀ target ∈ selected, ∀ page, keptPage casing urls extractor site target = some page →
        page.url ≠ target → ∀ other ∈ selected, other ≠ target → ∀ otherPage,
          keptPage casing urls extractor site other = some otherPage →
            otherPage.url ≠ page.url := by
  rw [(h.map _).nodup_iff, List.map_filterMap, List.Nodup, List.pairwise_filterMap]
  have happly : ∀ {target : Utf16Text} {page : CrawledPage},
      keptPage casing urls extractor site target = some page →
        ((keptPage casing urls extractor site target).map (·.url)) = some page.url := fun hkept =>
    congrArg (Option.map _) hkept
  constructor
  · intro hpairwise target htarget page hkept _ other hother hne otherPage hkept' heq
    have : Std.Symm fun a a' : Utf16Text =>
        ∀ b, (keptPage casing urls extractor site a).map (·.url) = some b →
          ∀ b', (keptPage casing urls extractor site a').map (·.url) = some b' → b ≠ b' :=
      ⟨fun _ _ hab b hb b' hb' => (hab b' hb' b hb).symm⟩
    exact hpairwise.forall hother htarget hne _ (happly hkept') _ (happly hkept) heq
  · intro hredirects
    refine hnodup.pairwise_of_forall_ne fun a ha b hb hne u hu v hv huv => ?_
    obtain ⟨p, hp, rfl⟩ := Option.map_eq_some_iff.1 hu
    obtain ⟨q, hq, rfl⟩ := Option.map_eq_some_iff.1 hv
    -- One of the two fetches ends at a URL that is not its own.
    by_cases hown : p.url = a
    · have hother : q.url ≠ b := fun hq' => hne (hown.symm.trans (huv.trans hq'))
      exact hredirects b hb q hq hother a ha hne p hp huv
    · exact hredirects a ha p hp hown b hb (Ne.symm hne) q hq huv.symm

/-- What a crawl does behind the start URL. -/
theorem crawl_eq_some_iff :
    crawl casing urls extractor completion site fuel opts = some ⟨some result, fetched⟩ ↔
      ∃ start first second, normalizeStartUrl casing urls opts.url = some start ∧
        readSitemaps casing urls site (urls.origin start) fuel
          (loadRobots casing site (urls.origin start)).sitemaps = some first ∧
        readSitemaps casing urls site (urls.origin start) fuel
          (if (startCandidates casing urls start first.items).length ≤ 1 then
            fallbackSitemaps (urls.origin start) else []) = some second ∧
        crawlPages casing urls extractor completion site (urls.href start) (urls.origin start)
          (loadRobots casing site (urls.origin start)) (pageLimit opts.maxPages)
          (startCandidates casing urls start (first.items ++ second.items))
          ((urls.origin start ++ utf16 "/robots.txt") :: (first.visited ++ second.visited)) =
            ⟨some result, fetched⟩ := by
  rw [crawl]
  cases hstart : normalizeStartUrl casing urls opts.url with
  | none =>
    refine iff_of_false (fun h => by cases h) ?_
    rintro ⟨_, _, _, h, -⟩
    cases h
  | some start =>
    simp only [Option.bind_eq_bind, Option.bind_eq_some_iff, Option.some.injEq]
    constructor
    · rintro ⟨first, hfirst, second, hsecond, h⟩
      exact ⟨start, first, second, rfl, hfirst, hsecond, h⟩
    · rintro ⟨_, first, second, rfl, hfirst, hsecond, h⟩
      exact ⟨first, hfirst, second, hsecond, h⟩

/-- A crawl that selects some pages has a result. -/
theorem exists_result_of_selects (h : Selects casing urls site fuel opts start selected) :
    ∃ result fetched,
      crawl casing urls extractor completion site fuel opts = some ⟨some result, fetched⟩ := by
  obtain ⟨hstart, first, second, hfirst, hsecond, -⟩ := h
  exact ⟨_, _, crawl_eq_some_iff.2 ⟨start, first, second, hstart, hfirst, hsecond, rfl⟩⟩

/-- The result of a crawl that selects some pages is safe exactly if its redirects stay. -/
theorem safeResult_iff_of_selects (hurls : urls.Lawful)
    (hselects : Selects casing urls site fuel opts start selected)
    (h : crawl casing urls extractor completion site fuel opts = some ⟨some result, fetched⟩) :
    SafeResult casing urls extractor site opts start selected result ↔
      RedirectsStay casing urls extractor site start selected := by
  obtain ⟨hstart, first, second, hfirst, hsecond, rfl⟩ := hselects
  obtain ⟨_, _, _, hstart', hfirst', hsecond', hpages⟩ := crawl_eq_some_iff.1 h
  cases hstart.symm.trans hstart'
  cases hfirst.symm.trans hfirst'
  cases hsecond.symm.trans hsecond'
  have hset : CandidateSet casing urls (urls.origin start)
      (startCandidates casing urls start (first.items ++ second.items)) :=
    candidateSet_startCandidates hurls start _
  obtain ⟨hallowed, hnodup, hfew⟩ := @selectedPages_spec U casing urls site (urls.origin start)
    (loadRobots casing site (urls.origin start)) (pageLimit opts.maxPages) _ hurls
    (urls.href start) hset
  obtain ⟨hperm, hskipped⟩ := crawlPages_spec hurls hset hpages
  constructor
  · intro hsafe target htarget page hkept hredirected
    exact ⟨hsafe.allowed page ((mem_pages_iff hperm).2 ⟨target, htarget, hkept⟩),
      (distinct_iff hnodup hperm).1 hsafe.distinct target htarget page hkept hredirected⟩
  · intro hstay
    refine ⟨fun page hpage => ?_, (distinct_iff hnodup hperm).2 fun target htarget page hkept
      hredirected => (hstay target htarget page hkept hredirected).2, ?_, hperm, hskipped⟩
    · obtain ⟨target, htarget, hkept⟩ := (mem_pages_iff hperm).1 hpage
      by_cases hown : page.url = target
      · exact hown ▸ hallowed target htarget
      · exact (hstay target htarget page hkept hown).1
    · exact hperm.length_eq ▸ (List.length_filterMap_le _ _).trans hfew

/-- **The result of a crawl is safe exactly if its redirects stay.** A crawl with a result has
selected some pages; the result has allowed pages of the site only, and none twice, if and only if
each kept fetch that ends at another URL than its own ends at an allowed URL of the site, where no
other kept fetch ends. There are never too many pages, and each page that was selected is accounted
for once. -/
theorem safeResult_iff (hurls : urls.Lawful) {fuel : ℕ} {opts : CrawlOptions}
    {result : CrawlResult} {fetched : List Utf16Text}
    (h : crawl casing urls extractor completion site fuel opts = some ⟨some result, fetched⟩) :
    (∃ start selected, Selects casing urls site fuel opts start selected) ∧
      ∀ start selected, Selects casing urls site fuel opts start selected →
        (SafeResult casing urls extractor site opts start selected result ↔
          RedirectsStay casing urls extractor site start selected) := by
  refine ⟨?_, fun start selected hselects => safeResult_iff_of_selects hurls hselects h⟩
  obtain ⟨start, first, second, hstart, hfirst, hsecond, -⟩ := crawl_eq_some_iff.1 h
  exact ⟨start, _, hstart, first, second, hfirst, hsecond, rfl⟩

end Selection

/-! ### A page that has moved to another site -/

/-- An address `https://host/path` without a query and a fragment. -/
structure WebUrl where
  host : Utf16Text
  path : Utf16Text
  host_unbroken : ∀ u ∈ host, decide (u ≠ 0x2f) = true
  path_begins : path.head? = some 0x2f
  deriving DecidableEq

/-- The path, `/` if it does not begin with one. -/
def WebUrl.atHost (host path : Utf16Text) (h : ∀ u ∈ host, decide (u ≠ 0x2f) = true) : WebUrl :=
  if hpath : path.head? = some 0x2f then ⟨host, path, h, hpath⟩
  else ⟨host, 0x2f :: path, h, rfl⟩

def parseWebUrl (text : Utf16Text) : Option WebUrl :=
  if (utf16 "https://").isPrefixOf text then
    some (.atHost ((text.drop 8).takeWhile (· ≠ 0x2f)) ((text.drop 8).dropWhile (· ≠ 0x2f))
      fun _ hu => List.mem_takeWhile_imp (p := fun v => decide (v ≠ 0x2f)) hu)
  else none

/-- The parser of such addresses. -/
def webUrls : UrlParser WebUrl where
  parse := parseWebUrl
  resolve text _ := parseWebUrl text
  href u := utf16 "https://" ++ (u.host ++ u.path)
  origin u := utf16 "https://" ++ u.host
  protocol _ := utf16 "https:"
  host u := u.host
  pathname u := u.path
  bare u := u
  setPathname u path := .atHost u.host path u.host_unbroken

theorem WebUrl.host_atHost (host path : Utf16Text) (h : ∀ u ∈ host, decide (u ≠ 0x2f) = true) :
    (WebUrl.atHost host path h).host = host := by
  unfold WebUrl.atHost
  split_ifs <;> rfl

theorem webUrls_lawful : webUrls.Lawful where
  parse_href u _ := by
    have hpre : (utf16 "https://").isPrefixOf (utf16 "https://" ++ (u.host ++ u.path)) = true :=
      List.isPrefixOf_iff_prefix.2 (List.prefix_append _ _)
    have hdrop : (utf16 "https://" ++ (u.host ++ u.path)).drop 8 = u.host ++ u.path :=
      List.drop_left' (by decide)
    have hparse : parseWebUrl (utf16 "https://" ++ (u.host ++ u.path)) = some _ := if_pos hpre
    refine ⟨_, hparse, (WebUrl.host_atHost _ _ _).trans ?_, rfl⟩
    change _ = u.host
    rw [hdrop, List.takeWhile_append_of_pos u.host_unbroken]
    cases hpath : u.path with
    | nil => simp
    | cons v rest =>
      have hbegins := u.path_begins
      rw [hpath, List.head?_cons, Option.some.injEq] at hbegins
      simp [hbegins]
  host_bare _ := rfl
  protocol_bare _ := rfl
  host_setPathname u path := WebUrl.host_atHost _ _ _
  protocol_setPathname _ _ := rfl

/-- A site whose start page has moved to another one. -/
def movedSite : Site := fun url =>
  if url = utf16 "https://a.example/" then
    .ok ⟨utf16 "https://b.example/", 200, [], utf16 "text/html"⟩
  else .ok ⟨url, 404, [], utf16 "text/html"⟩

/-- An extractor that finds a text in every page. -/
def plainExtractor : Extractor := fun _ _ => .ok (some (utf16 "A", List.replicate 200 0x61))

/-- The start page of that site. -/
def movedStart : WebUrl := ⟨utf16 "a.example", utf16 "/", by decide, by decide⟩

/-- The crawl of that site selects its start page. -/
theorem selects_movedSite : Selects asciiCasing webUrls movedSite 1
    ⟨utf16 "https://a.example/", none⟩ movedStart [utf16 "https://a.example/"] := by
  have hstart : normalizeStartUrl asciiCasing webUrls (utf16 "https://a.example/") =
      some movedStart := by decide +kernel
  have hsitemaps :
      (loadRobots asciiCasing movedSite (webUrls.origin movedStart)).sitemaps = [] := by
    decide +kernel
  have hcandidates : startCandidates asciiCasing webUrls movedStart [] =
      [utf16 "https://a.example/"] := by decide +kernel
  have hfallback : ((readSitemaps asciiCasing webUrls movedSite (webUrls.origin movedStart) 1
      (fallbackSitemaps (webUrls.origin movedStart))).map fun r => r.items) = some [] := by
    decide +kernel
  have hfound : ((discovered asciiCasing webUrls movedSite (webUrls.href movedStart)
      (webUrls.origin movedStart) (loadRobots asciiCasing movedSite (webUrls.origin movedStart)) 25
      [utf16 "https://a.example/"]).found.foldl
        (addCandidate asciiCasing webUrls (webUrls.origin movedStart))
        [utf16 "https://a.example/"]).filter (allowsUrl webUrls
          (loadRobots asciiCasing movedSite (webUrls.origin movedStart))) =
      [utf16 "https://a.example/"] := by
    decide +kernel
  obtain ⟨second, hsecond, hitems⟩ := Option.map_eq_some_iff.1 hfallback
  refine ⟨hstart, ⟨[], []⟩, second, ?_, ?_, ?_⟩
  · rw [hsitemaps]
    rfl
  · rw [hcandidates, List.length_singleton, if_pos (Nat.le_refl 1)]
    exact hsecond
  · have hlimit : pageLimit none = 25 := by decide
    rw [hitems, List.append_nil, hcandidates, selectedPages, hlimit, hfound, rankUrls,
      List.mergeSort_singleton]
    rfl

/-- The fetch of that page is kept. -/
theorem keptPage_movedSite : (keptPage asciiCasing webUrls plainExtractor movedSite
    (utf16 "https://a.example/")).map (·.url) = some (utf16 "https://b.example/") := by
  decide +kernel

/-- Visits that end in the order in which they begin. -/
def inOrder : CompletionOrder := ⟨id, fun _ => .refl _⟩

theorem exists_crawl_movedSite : ∃ result fetched,
    crawl asciiCasing webUrls plainExtractor inOrder movedSite 1
      ⟨utf16 "https://a.example/", none⟩ = some ⟨some result, fetched⟩ :=
  exists_result_of_selects selects_movedSite

theorem not_redirectsStay_movedSite :
    ¬ RedirectsStay asciiCasing webUrls plainExtractor movedSite movedStart
      [utf16 "https://a.example/"] := by
  intro hstay
  obtain ⟨page, hkept, hurl⟩ := Option.map_eq_some_iff.1 keptPage_movedSite
  have hmoved : page.url ≠ utf16 "https://a.example/" := by
    rw [hurl]
    decide +kernel
  have hallowed := (hstay _ (List.mem_singleton_self _) page hkept hmoved).1.1
  have hother : sameOrigin asciiCasing webUrls (utf16 "https://b.example/")
      (webUrls.origin movedStart) = false := by
    decide +kernel
  rw [hurl, hother] at hallowed
  cases hallowed

/-- **A page that has moved to another site is returned.** -/
theorem moved_page_returned :
    ¬ ∀ (site : Site) (fuel : ℕ) (opts : CrawlOptions) (start : WebUrl)
      (selected : List Utf16Text) (result : CrawlResult) (fetched : List Utf16Text),
      Selects asciiCasing webUrls site fuel opts start selected →
      crawl asciiCasing webUrls plainExtractor inOrder site fuel opts =
        some ⟨some result, fetched⟩ →
      SafeResult asciiCasing webUrls plainExtractor site opts start selected result := by
  intro h
  obtain ⟨result, fetched, hcrawl⟩ := exists_crawl_movedSite
  exact not_redirectsStay_movedSite ((safeResult_iff_of_selects webUrls_lawful selects_movedSite
    hcrawl).1 (h _ _ _ _ _ _ _ selects_movedSite hcrawl))

/-- The condition of the crawl of that site. -/
theorem safeResult_iff_moved : ∃ result fetched,
    crawl asciiCasing webUrls plainExtractor inOrder movedSite 1
      ⟨utf16 "https://a.example/", none⟩ = some ⟨some result, fetched⟩ ∧
    ∀ start selected,
      Selects asciiCasing webUrls movedSite 1 ⟨utf16 "https://a.example/", none⟩ start selected →
        (SafeResult asciiCasing webUrls plainExtractor movedSite
            ⟨utf16 "https://a.example/", none⟩ start selected result ↔
          RedirectsStay asciiCasing webUrls plainExtractor movedSite start selected) := by
  obtain ⟨result, fetched, hcrawl⟩ := exists_crawl_movedSite
  exact ⟨result, fetched, hcrawl, (safeResult_iff webUrls_lawful hcrawl).2⟩

end Munin.Agent
