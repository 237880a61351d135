import Munin.Net.IpAddresses

/-!
# Requests to public addresses

A request goes to a host that others choose, and so do the redirects that its answer may bring. The
host is checked before each request, and a name is looked up again when a connection is opened.

* **`resolvePublicHost`**, **`agentLookup`** — the check before a request, and the lookup of the
  agent that opens the connections.
* **`Hop`** — what others decide while a request is made: the answers of both lookups, which need
  not agree, the addresses that are tried, and the response.
* **`safeFetch`** — the requests, one for each redirect.
* **`safeFetch_reaches_public`** — whatever the others decide, no connection goes to a private
  address, every request is one by http, they are at most one more than the redirects allowed, and
  the last one if it redirects to a host that is not allowed.
-/

namespace Munin.Net

open Foundations Conversations

/-! ### URLs and hosts -/

/-- What `new URL` makes of a text, and what is read of it. The parser puts the host of a URL by
http in lower case; of the schemes that are not special it keeps the host as it is written. -/
structure UrlSyntax (U : Type) where
  /-- `toLowerCase` -/
  lower : Utf16Text → Utf16Text
  parse : Utf16Text → Option U
  /-- `new URL(location, base).toString()` -/
  resolve : Utf16Text → Utf16Text → Option Utf16Text
  protocol : U → Utf16Text
  hostname : U → Utf16Text
  lower_hostname : ∀ u, protocol u = utf16 "http:" ∨ protocol u = utf16 "https:" →
    lower (hostname u) = hostname u

/-- A record of a lookup. -/
structure DnsRecord where
  address : Utf16Text
  family : ℕ

inductive FetchError where
  | badOptions (message : Utf16Text)
  | badUrl
  | blocked (message : Utf16Text) (detail : Option Utf16Text)
  | network (message : Utf16Text)
  | tooLarge (limit declared : ℕ)

/-- `BLOCKED_HOSTNAMES`. -/
def blockedHostnames : List Utf16Text :=
  ["localhost", "localhost.", "ip6-localhost", "ip6-loopback", "broadcasthost"].map utf16

/-- Whether a host is blocked by its name. -/
def isBlockedName (h : Utf16Text) : Bool :=
  h ∈ blockedHostnames || (utf16 ".localhost").isSuffixOf h || (utf16 ".local").isSuffixOf h ||
    (utf16 ".internal").isSuffixOf h

/-- `host.replace(/^\[(.*)\]$/, '$1')`. -/
def stripBrackets (host : Utf16Text) : Utf16Text :=
  let inner := (host.drop 1).dropLast
  if host.head? = some 0x5b ∧ host.getLast? = some 0x5d ∧ 2 ≤ host.length ∧
      inner.all fun u => !isLineTerminator u then
    inner
  else host

def unreachableHost (hostname detail : Utf16Text) : FetchError :=
  .blocked (utf16 "host " ++ hostname ++ utf16 " is not reachable as a public address")
    (some detail)

section Hosts

variable {U : Type} (syn : UrlSyntax U) (allowPrivate : Bool)

/-- The check of a host; `resolver` is what the lookup answers, or the message of its error. -/
def resolvePublicHost (hostname : Utf16Text)
    (resolver : Utf16Text → Except Utf16Text (List DnsRecord)) :
    Except FetchError (Option DnsRecord) :=
  if allowPrivate then .ok none
  else
    let host := stripBrackets (syn.lower hostname)
    if host = [] then .error (.blocked (utf16 "empty host") none)
    else if host ∈ blockedHostnames then
      .error (.blocked (utf16 "host \"" ++ hostname ++ utf16 "\" is not allowed") none)
    else if isBlockedName host then
      .error (.blocked (utf16 "host suffix \"" ++ hostname ++ utf16 "\" is not allowed") none)
    else if isIp host ≠ 0 then
      if isPrivateIp host then
        .error (.blocked (utf16 "ip " ++ hostname ++ utf16 " is private/reserved") none)
      else .ok (some ⟨host, if isIp host = 6 then 6 else 4⟩)
    else
      match resolver host with
      | .error message => .error (unreachableHost hostname (utf16 "dns lookup failed: " ++ message))
      | .ok [] => .error (unreachableHost hostname (utf16 "dns lookup returned no records"))
      | .ok (first :: records) =>
        match (first :: records).find? fun r => isPrivateIp r.address with
        | some r =>
          .error (unreachableHost hostname (utf16 "resolves to private ip " ++ r.address))
        | none => .ok (some first)

def isBannedHostname (host : Utf16Text) : Bool := isBlockedName (syn.lower host)

/-- The lookup that the agent gives to a connection: the records for it. The answer of the lookup
below it is a list of records, something else, or the message of an error. -/
def agentLookup (hostname : Utf16Text) (wantAll : Bool)
    (answer : Except Utf16Text (Option (List DnsRecord))) : Except Utf16Text (List DnsRecord) :=
  let rejected :=
    Except.error (utf16 "host " ++ hostname ++ utf16 " is not reachable as a public address")
  let hostOk := if isIp hostname ≠ 0 then !isPrivateIp hostname else !isBannedHostname syn hostname
  if !hostOk ∧ !allowPrivate then rejected
  else
    match answer with
    | .error message => .error message
    | .ok none => .error (utf16 "no address resolved")
    | .ok (some []) => .error (utf16 "no address resolved")
    | .ok (some (first :: records)) =>
      if !allowPrivate ∧ (first :: records).any fun r => isPrivateIp r.address then rejected
      else if wantAll then .ok (first :: records)
      else .ok [first]

end Hosts

/-! ### Requests -/

/-- What is read of a response. -/
structure HttpResponse where
  status : ℕ
  location : Option Utf16Text
  /-- The `content-length`, if there is one and it is a finite number. -/
  declared : Option ℕ

/-- An attempt to open a connection: whether it asks for all records, what the lookup answers it,
and the addresses that it tries. -/
structure Attempt where
  wantAll : Bool
  answer : Except Utf16Text (Option (List DnsRecord))
  tried : List Utf16Text

/-- What others decide while a request is made. -/
structure Hop where
  resolver : Utf16Text → Except Utf16Text (List DnsRecord)
  attempts : List Attempt
  response : Except Utf16Text HttpResponse

structure FetchOptions where
  maxRedirects : ℕ
  maxResponseBytes : ℕ
  isHead : Bool

/-- A request that was made: its URL, the addresses connected to, and the response. -/
structure Request where
  url : Utf16Text
  connected : List Utf16Text
  response : Except Utf16Text HttpResponse

/-- What a fetch has done: its requests, and the response with the URL it is from. -/
structure FetchRun where
  requests : List Request
  result : Except FetchError (HttpResponse × Utf16Text)

section Requests

variable {U : Type} (syn : UrlSyntax U) (allowPrivate : Bool)

/-- The addresses that an attempt connects to: an address is its own host, and a name those that
the lookup returns for it. -/
def connectedTo (hostname : Utf16Text) (attempt : Attempt) : List Utf16Text :=
  let host := stripBrackets hostname
  if isIp host ≠ 0 then [host]
  else
    match agentLookup syn allowPrivate host attempt.wantAll attempt.answer with
    | .error _ => []
    | .ok records => attempt.tried.filter fun address => records.any fun r => r.address = address

/-- `REDIRECT_STATUSES`. -/
def isRedirectStatus (status : ℕ) : Bool := status ∈ [301, 302, 303, 307, 308]

def redirectTarget (res : HttpResponse) (base : Utf16Text) : Except FetchError (Option Utf16Text) :=
  if !isRedirectStatus res.status then .ok none
  else
    match res.location with
    | none => .ok none
    | some location =>
      if location = [] then .ok none
      else
        match syn.resolve location base with
        | none => .error .badUrl
        | some next => .ok (some next)

def assertHttpUrl (raw : Utf16Text) : Except FetchError U :=
  match syn.parse raw with
  | none => .error .badUrl
  | some url =>
    if syn.protocol url ≠ utf16 "http:" ∧ syn.protocol url ≠ utf16 "https:" then
      .error (.blocked (utf16 "protocol " ++ syn.protocol url ++ utf16 " is not allowed") none)
    else .ok url

/-- The response that is returned, unless its declared length is over the limit. -/
def acceptResponse (opts : FetchOptions) (res : HttpResponse) (url : Utf16Text) :
    Except FetchError (HttpResponse × Utf16Text) :=
  match res.declared with
  | none => .ok (res, url)
  | some declared =>
    if !opts.isHead ∧ opts.maxResponseBytes < declared then
      .error (.tooLarge opts.maxResponseBytes declared)
    else .ok (res, url)

def tooManyRedirects (maxRedirects : ℕ) : FetchError :=
  .blocked (utf16 "too many redirects (>" ++ utf16 (toString maxRedirects) ++ utf16 ")") none

/-- The request of a hop for a URL. -/
def requestOf (hop : Hop) (url hostname : Utf16Text) : Request where
  url
  connected := hop.attempts.flatMap (connectedTo syn allowPrivate hostname)
  response := hop.response

/-- The loop, `left` redirects being left; `hops` says what others decide from request `k` on. -/
def fetchLoop (hops : ℕ → Hop) (opts : FetchOptions) (left k : ℕ) (currentUrl : Utf16Text) :
    FetchRun :=
  match assertHttpUrl syn currentUrl with
  | .error e => ⟨[], .error e⟩
  | .ok parsed =>
    match resolvePublicHost syn allowPrivate (syn.hostname parsed) (hops k).resolver with
    | .error e => ⟨[], .error e⟩
    | .ok _ =>
      let request := requestOf syn allowPrivate (hops k) currentUrl (syn.hostname parsed)
      match (hops k).response with
      | .error message => ⟨[request], .error (.network message)⟩
      | .ok res =>
        match redirectTarget syn res currentUrl with
        | .error e => ⟨[request], .error e⟩
        | .ok none => ⟨[request], acceptResponse opts res currentUrl⟩
        | .ok (some nextUrl) =>
          match left with
          | 0 => ⟨[request], .error (tooManyRedirects opts.maxRedirects)⟩
          | left + 1 =>
            let rest := fetchLoop hops opts left (k + 1) nextUrl
            ⟨request :: rest.requests, rest.result⟩

def safeFetch (hops : ℕ → Hop) (opts : FetchOptions) (input : Utf16Text) : FetchRun :=
  if opts.maxResponseBytes = 0 then
    ⟨[], .error (.badOptions (utf16 "maxResponseBytes must be a positive finite number"))⟩
  else fetchLoop syn allowPrivate hops opts opts.maxRedirects 0 input

/-! ### What a fetch reaches -/

/-- A URL is one by http. -/
def IsHttp (url : Utf16Text) (u : U) : Prop :=
  syn.parse url = some u ∧ (syn.protocol u = utf16 "http:" ∨ syn.protocol u = utf16 "https:")

/-- A host is not allowed: its name is blocked, it is a private address, or it resolves to one. -/
inductive DisallowedHost (resolver : Utf16Text → Except Utf16Text (List DnsRecord))
    (host : Utf16Text) : Prop
  | name (h : isBlockedName host = true)
  | address (hip : isIp host ≠ 0) (h : isPrivateIp host = true)
  | resolves (hip : isIp host = 0) (records : List DnsRecord)
      (hrecords : resolver host = .ok records) (r : DnsRecord) (hr : r ∈ records)
      (h : isPrivateIp r.address = true)

/-- A URL is not allowed, by its protocol or its host, as the lookup of a hop says. -/
def DisallowedUrl (hop : Hop) (url : Utf16Text) : Prop :=
  ∀ u, IsHttp syn url u → DisallowedHost hop.resolver (stripBrackets (syn.hostname u))

variable {syn} {hops : ℕ → Hop} {opts : FetchOptions}

theorem assertHttpUrl_eq_ok {url : Utf16Text} {u : U} (h : assertHttpUrl syn url = .ok u) :
    IsHttp syn url u := by
  rw [assertHttpUrl] at h
  split at h
  · cases h
  · rename_i u' hparse
    split_ifs at h with hprotocol
    obtain rfl := Except.ok.inj h
    refine ⟨hparse, ?_⟩
    rw [not_and_or, not_not, not_not] at hprotocol
    exact hprotocol

variable {hostname : Utf16Text} {resolver : Utf16Text → Except Utf16Text (List DnsRecord)}

/-- A host that has passed the check is no private address. -/
theorem isPrivateIp_of_resolve {r : Option DnsRecord} (hlower : syn.lower hostname = hostname)
    (h : resolvePublicHost syn false hostname resolver = .ok r) :
    ¬ DisallowedHost resolver (stripBrackets hostname) := by
  rw [resolvePublicHost, if_neg Bool.false_ne_true, hlower] at h
  simp only at h
  have hliteral : isBlockedName (stripBrackets hostname) ≠ true →
      isIp (stripBrackets hostname) ≠ 0 → isPrivateIp (stripBrackets hostname) ≠ true →
        ¬ DisallowedHost resolver (stripBrackets hostname) := by
    intro hname hip hprivate hbad
    cases hbad with
    | name hname' => exact hname hname'
    | address _ hprivate' => exact hprivate hprivate'
    | resolves hip' => exact hip hip'
  split_ifs at h with hempty hlisted hname hip hprivate
  · exact hliteral hname hip hprivate
  · exact hliteral hname hip hprivate
  · intro hbad
    split at h
    · cases h
    · cases h
    · rename_i first records hrecords
      split at h
      · cases h
      · rename_i hfind
        cases hbad with
        | name hname' => exact absurd hname' hname
        | address hip' => exact absurd hip' hip
        | resolves _ records' hrecords' r' hr' hprivate =>
          obtain rfl := Except.ok.inj (hrecords.symm.trans hrecords')
          exact absurd hprivate (List.find?_eq_none.1 hfind r' hr')

/-- The lookup of the agent returns no private address. -/
theorem isPrivateIp_of_agentLookup {wantAll : Bool}
    {answer : Except Utf16Text (Option (List DnsRecord))} {records : List DnsRecord}
    (h : agentLookup syn false hostname wantAll answer = .ok records) {r : DnsRecord}
    (hr : r ∈ records) : isPrivateIp r.address = false := by
  unfold agentLookup at h
  extract_lets rejected hostOk at h
  have hrejected : rejected ≠ .ok records := by simp [rejected]
  split at h
  · exact absurd h hrejected
  · split at h
    · cases h
    · cases h
    · cases h
    · rename_i first others
      split at h
      · exact absurd h hrejected
      rename_i hprivate
      split_ifs at h
      all_goals
        have hpublic : ∀ r ∈ first :: others, isPrivateIp r.address = false := fun r hr =>
          Bool.eq_false_iff.2 fun hr' => hprivate ⟨rfl, List.any_eq_true.2 ⟨r, hr, hr'⟩⟩
        obtain rfl := Except.ok.inj h
      · exact hpublic r hr
      · exact hpublic r (List.mem_of_mem_take (i := 1) hr)

/-- The addresses of an attempt are public, if its host has passed the check. -/
theorem isPrivateIp_of_connected {attempt : Attempt}
    (hallowed : ¬ DisallowedHost resolver (stripBrackets hostname)) {address : Utf16Text}
    (h : address ∈ connectedTo syn false hostname attempt) : isPrivateIp address = false := by
  rw [connectedTo] at h
  split_ifs at h with hip
  · -- An address is its own host, which the lookup of the agent never sees.
    obtain rfl := List.mem_singleton.1 h
    exact Bool.eq_false_iff.2 fun hprivate => hallowed (.address hip hprivate)
  · split at h
    · cases h
    · rename_i records hlookup
      obtain ⟨r, hr, hreq⟩ := List.any_eq_true.1 (List.mem_filter.1 h).2
      rw [← of_decide_eq_true hreq]
      exact isPrivateIp_of_agentLookup hlookup hr

/-- The loop fails before its request, or it ends with it, or it goes on with a redirect. -/
theorem fetchLoop_cases (syn : UrlSyntax U) (hops : ℕ → Hop) (opts : FetchOptions) (left k : ℕ)
    (url : Utf16Text) :
    (∃ e, fetchLoop syn false hops opts left k url = ⟨[], .error e⟩) ∨
      ∃ u, IsHttp syn url u ∧
        ¬ DisallowedHost (hops k).resolver (stripBrackets (syn.hostname u)) ∧
        ((∃ result, fetchLoop syn false hops opts left k url =
              ⟨[requestOf syn false (hops k) url (syn.hostname u)], result⟩ ∧
            ∀ res next, (hops k).response = .ok res →
              redirectTarget syn res url = .ok (some next) → ∃ e, result = .error e) ∨
          ∃ l res next, left = l + 1 ∧ (hops k).response = .ok res ∧
            redirectTarget syn res url = .ok (some next) ∧
            fetchLoop syn false hops opts left k url =
              ⟨requestOf syn false (hops k) url (syn.hostname u) ::
                  (fetchLoop syn false hops opts l (k + 1) next).requests,
                (fetchLoop syn false hops opts l (k + 1) next).result⟩) := by
  rcases hparse : assertHttpUrl syn url with e | u
  · exact .inl ⟨e, by cases left <;> simp only [fetchLoop, hparse]⟩
  rcases hcheck : resolvePublicHost syn false (syn.hostname u) (hops k).resolver with e | r
  · exact .inl ⟨e, by cases left <;> simp only [fetchLoop, hparse, hcheck]⟩
  have hhttp : IsHttp syn url u := assertHttpUrl_eq_ok hparse
  refine .inr ⟨u, hhttp, isPrivateIp_of_resolve (syn.lower_hostname u hhttp.2) hcheck, ?_⟩
  rcases hresponse : (hops k).response with message | res
  · refine .inl ⟨.error (.network message), ?_, nofun⟩
    cases left <;> simp only [fetchLoop, hparse, hcheck, hresponse]
  rcases htarget : redirectTarget syn res url with e | target
  · refine .inl ⟨.error e, ?_, fun _ _ _ _ => ⟨e, rfl⟩⟩
    cases left <;> simp only [fetchLoop, hparse, hcheck, hresponse, htarget]
  cases target with
  | none =>
    refine .inl ⟨acceptResponse opts res url, ?_, ?_⟩
    · cases left <;> simp only [fetchLoop, hparse, hcheck, hresponse, htarget]
    · intro res' next hres' hnext
      obtain rfl := Except.ok.inj hres'
      exact nomatch (htarget.symm.trans hnext)
  | some next =>
    cases left with
    | zero =>
      refine .inl ⟨.error (tooManyRedirects opts.maxRedirects), ?_, fun _ _ _ _ => ⟨_, rfl⟩⟩
      simp only [fetchLoop, hparse, hcheck, hresponse, htarget]
    | succ l =>
      refine .inr ⟨l, res, next, rfl, rfl, htarget, ?_⟩
      rw [fetchLoop]
      simp only [hparse, hcheck, hresponse, htarget]

/-- What holds of a fetch of `url` that starts at request `k`, `left` redirects being left. -/
structure ReachesPublic (syn : UrlSyntax U) (hops : ℕ → Hop) (left k : ℕ) (url : Utf16Text)
    (run : FetchRun) : Prop where
  /-- Every address connected to is public. -/
  addresses : ∀ request ∈ run.requests, ∀ address ∈ request.connected,
    isPrivateIp address = false
  http : ∀ request ∈ run.requests, ∃ u, IsHttp syn request.url u
  bounded : run.requests.length ≤ left + 1
  /-- A URL that is not allowed is not requested. -/
  start : DisallowedUrl syn (hops k) url → run.requests = [] ∧ ∃ e, run.result = .error e
  /-- A redirect to a URL that is not allowed is the end, and an error. -/
  redirect : ∀ i request, run.requests[i]? = some request → ∀ res, request.response = .ok res →
    ∀ next, redirectTarget syn res request.url = .ok (some next) →
      DisallowedUrl syn (hops (k + i + 1)) next →
        run.requests.length = i + 1 ∧ ∃ e, run.result = .error e

theorem ReachesPublic.failed {left k : ℕ} {url : Utf16Text} (e : FetchError) :
    ReachesPublic syn hops left k url ⟨[], .error e⟩ where
  addresses := nofun
  http := nofun
  bounded := Nat.zero_le _
  start := fun _ => ⟨rfl, e, rfl⟩
  redirect := nofun

section Steps

variable {left k : ℕ} {url : Utf16Text} {u : U} (hu : IsHttp syn url u)
  (hallowed : ¬ DisallowedHost (hops k).resolver (stripBrackets (syn.hostname u)))

include hallowed

theorem isPrivateIp_of_requestOf {address : Utf16Text}
    (h : address ∈ (requestOf syn false (hops k) url (syn.hostname u)).connected) :
    isPrivateIp address = false := by
  obtain ⟨attempt, _, hconnected⟩ := List.mem_flatMap.1 h
  exact isPrivateIp_of_connected hallowed hconnected

include hu

theorem ReachesPublic.single {result : Except FetchError (HttpResponse × Utf16Text)}
    (hresult : ∀ res next, (hops k).response = .ok res →
      redirectTarget syn res url = .ok (some next) → ∃ e, result = .error e) :
    ReachesPublic syn hops left k url
      ⟨[requestOf syn false (hops k) url (syn.hostname u)], result⟩ where
  addresses request hrequest address h := by
    obtain rfl := List.mem_singleton.1 hrequest
    exact isPrivateIp_of_requestOf hallowed h
  http request hrequest := by
    obtain rfl := List.mem_singleton.1 hrequest
    exact ⟨u, hu⟩
  bounded := Nat.le_add_left 1 left
  start hbad := absurd (hbad u hu) hallowed
  redirect i request hrequest res hres next hnext _ := by
    cases i with
    | zero =>
      obtain rfl := Option.some.inj hrequest
      exact ⟨rfl, hresult res next hres hnext⟩
    | succ i => cases hrequest

/-- A redirect goes on with a fetch that has one redirect less left. -/
theorem ReachesPublic.cons {res : HttpResponse} {next : Utf16Text} {rest : FetchRun}
    (hres : (hops k).response = .ok res) (hnext : redirectTarget syn res url = .ok (some next))
    (hrest : ReachesPublic syn hops left (k + 1) next rest) :
    ReachesPublic syn hops (left + 1) k url
      ⟨requestOf syn false (hops k) url (syn.hostname u) :: rest.requests, rest.result⟩ where
  addresses request hrequest address h := by
    rcases List.mem_cons.1 hrequest with rfl | hrequest
    · exact isPrivateIp_of_requestOf hallowed h
    · exact hrest.addresses request hrequest address h
  http request hrequest := by
    rcases List.mem_cons.1 hrequest with rfl | hrequest
    · exact ⟨u, hu⟩
    · exact hrest.http request hrequest
  bounded := Nat.succ_le_succ hrest.bounded
  start hbad := absurd (hbad u hu) hallowed
  redirect i request hrequest res' hres' next' hnext' hbad := by
    cases i with
    | zero =>
      -- The redirect is the one that the rest starts with.
      obtain rfl := Option.some.inj hrequest
      obtain rfl := Except.ok.inj (hres.symm.trans hres')
      obtain rfl := Option.some.inj (Except.ok.inj (hnext.symm.trans hnext'))
      obtain ⟨hnil, herror⟩ := hrest.start hbad
      exact ⟨by rw [hnil]; rfl, herror⟩
    | succ i =>
      rw [List.getElem?_cons_succ] at hrequest
      rw [show k + (i + 1) + 1 = k + 1 + i + 1 by omega] at hbad
      obtain ⟨hlength, herror⟩ := hrest.redirect i request hrequest res' hres' next' hnext' hbad
      exact ⟨congrArg (· + 1) hlength, herror⟩

end Steps

/-- The run of the loop, by induction on the redirects that are left. -/
theorem fetchLoop_reaches_public (hops : ℕ → Hop) (opts : FetchOptions) (left k : ℕ)
    (url : Utf16Text) :
    ReachesPublic syn hops left k url (fetchLoop syn false hops opts left k url) := by
  induction left using Nat.strong_induction_on generalizing k url with
  | _ left ih =>
    rcases fetchLoop_cases syn hops opts left k url with
      ⟨e, hrun⟩ | ⟨u, hu, hallowed, ⟨result, hrun, hresult⟩ |
        ⟨l, res, next, rfl, hres, hnext, hrun⟩⟩
    · rw [hrun]
      exact .failed e
    · rw [hrun]
      exact .single hu hallowed hresult
    · rw [hrun]
      exact .cons hu hallowed hres hnext (ih l (Nat.lt_succ_self l) (k + 1) next)

/-- With private access off, whatever the servers and the lookups answer, a fetch connects to
public addresses only, requests only URLs by http, makes at most one request more than the
redirects allowed, and fails at a redirect to a URL that is not allowed, with no further request. -/
theorem safeFetch_reaches_public (syn : UrlSyntax U) (hops : ℕ → Hop) (opts : FetchOptions)
    (input : Utf16Text) :
    ReachesPublic syn hops opts.maxRedirects 0 input (safeFetch syn false hops opts input) := by
  rw [safeFetch]
  split_ifs
  · exact .failed _
  · exact fetchLoop_reaches_public hops opts opts.maxRedirects 0 input

end Requests

/-- The URLs of a sample: `http://example.com/`, `http://10.0.0.1/` and `foo://ABC/`. -/
inductive SampleUrl where
  | named | address | other

/-- A syntax that reads four texts as `new URL` does: a host by http is put in lower case, and that
of `foo:` is kept. The locations are absolute, so the base does not matter. -/
def sampleSyntax : UrlSyntax SampleUrl where
  lower := List.map asciiLower
  parse text :=
    [(utf16 "http://Example.com/", .named), (utf16 "http://example.com/", .named),
      (utf16 "http://10.0.0.1/", .address), (utf16 "foo://ABC/", .other)].lookup text
  resolve location _ :=
    [("http://Example.com/", "http://example.com/"), ("http://example.com/", "http://example.com/"),
      ("http://10.0.0.1/", "http://10.0.0.1/"), ("foo://ABC/", "foo://ABC/")].findSome?
      fun entry => if utf16 entry.1 = location then some (utf16 entry.2) else none
  protocol
    | .named | .address => utf16 "http:"
    | .other => utf16 "foo:"
  hostname
    | .named => utf16 "example.com"
    | .address => utf16 "10.0.0.1"
    | .other => utf16 "ABC"
  lower_hostname u hprotocol := by
    cases u with
    | named => decide +kernel
    | address => decide +kernel
    | other => exact absurd hprotocol (by decide +kernel)

/-- A name whose first lookup answers a public address. When connections are opened, it answers a
private address and then the public one, and the response redirects to a private address. -/
def rebindingHop : Hop where
  resolver _ := .ok [⟨utf16 "93.184.216.34", 4⟩]
  attempts := [⟨true, .ok (some [⟨utf16 "10.0.0.1", 4⟩]), [utf16 "10.0.0.1"]⟩,
    ⟨false, .ok (some [⟨utf16 "93.184.216.34", 4⟩]), [utf16 "93.184.216.34"]⟩]
  response := .ok ⟨302, some (utf16 "http://10.0.0.1/"), none⟩

/-- One request, to the public address only; the redirect is an error. -/
theorem safeFetch_reaches_public_sample :
    let run := safeFetch sampleSyntax false (fun _ => rebindingHop) ⟨5, 100, false⟩
      (utf16 "http://Example.com/")
    ReachesPublic sampleSyntax (fun _ => rebindingHop) 5 0 (utf16 "http://Example.com/") run ∧
      run.requests.map (fun request => (request.url, request.connected)) =
        [(utf16 "http://Example.com/", [utf16 "93.184.216.34"])] ∧
      run.result.isOk = false :=
  ⟨safeFetch_reaches_public sampleSyntax (fun _ => rebindingHop) ⟨5, 100, false⟩ _,
    by decide +kernel, by decide +kernel⟩

end Munin.Net
