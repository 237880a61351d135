import Mathlib.Logic.Function.Basic
import Munin.Foundations.Machine
import Munin.Agent.Crawl

/-!
# The politeness of a crawl

The pages of a crawl are fetched by some workers. A worker takes the next address; if its host was
hit less than an interval ago it sleeps, and when it wakes it records its own hit and fetches. What
it read before it slept it does not read again.

* **`crawlWorkers`** — the workers as a machine: who moves next and how far the clock goes on is
  the label of a step.
* **`Workers.Polite`** — the fetches of a host start at least the interval apart.
* **`Workers.Heeds`** — a worker that wakes may go on: the entry that it read still stands, or the
  hit that replaced it is an interval back.
* **`polite_iff`** — a run is polite exactly if each worker that wakes on it may go on.
-/

namespace Munin.Agent

open Foundations Conversations

/-- `PER_HOST_MIN_INTERVAL_MS`. -/
def perHostMinInterval : ℕ := 250

/-- `FETCH_CONCURRENCY`. -/
def fetchConcurrency : ℕ := 8

/-- What a worker of `runWithConcurrency` is at. -/
inductive Worker where
  | next
  /-- In `politeWait`, with the last hit that it has read, up to a time. -/
  | sleeping (target host : Utf16Text) (last wakeAt : ℕ)
  | fetching (target : Utf16Text)
  | done
  deriving DecidableEq

/-- A fetch that was started. -/
structure PageFetch where
  target : Utf16Text
  start : ℕ
  deriving DecidableEq

/-- The workers of a crawl with what they share: the index of the next address, the last hit of
each host, and the time. -/
structure Workers where
  i : ℕ
  lastHitByHost : Utf16Text → Option ℕ
  now : ℕ
  workers : List Worker
  /-- The fetches so far, in the order in which they were started. -/
  fetches : List PageFetch

/-- What happens next. -/
inductive WorkerStep where
  /-- A worker goes round its loop, up to its sleep or its fetch. -/
  | takes (w : ℕ)
  | wakes (w : ℕ)
  | fetched (w : ℕ)
  /-- Time goes on, while workers sleep and fetch. -/
  | passes (d : ℕ)

namespace Workers

/-- A worker goes on to something else. -/
def set (s : Workers) (w : ℕ) (worker : Worker) : Workers :=
  { s with workers := s.workers.set w worker }

/-- A worker starts its fetch. -/
def fetch (s : Workers) (w : ℕ) (target : Utf16Text) : Workers :=
  { s.set w (.fetching target) with fetches := s.fetches ++ [⟨target, s.now⟩] }

/-- `lastByHost.set(host, Date.now())`. -/
def hit (s : Workers) (host : Utf16Text) : Workers :=
  { s with lastHitByHost := Function.update s.lastHitByHost host (some s.now) }

theorem hit_self (s : Workers) (host : Utf16Text) :
    (s.hit host).lastHitByHost host = some s.now :=
  Function.update_self ..

theorem hit_of_ne (s : Workers) {host other : Utf16Text} (h : other ≠ host) :
    (s.hit host).lastHitByHost other = s.lastHitByHost other :=
  Function.update_of_ne h ..

/-- The workers at the start of a crawl. -/
def start (targets : List Utf16Text) (limit now : ℕ) : Workers where
  i := 0
  lastHitByHost _ := none
  now := now
  workers := List.replicate (max 1 (min limit targets.length)) .next
  fetches := []

end Workers

section Politeness

variable {U : Type} (urls : UrlParser U)

def safeHost (url : Utf16Text) : Option Utf16Text := (urls.parse url).map urls.host

/-- The host for which a fetch has to wait; an empty host is none. -/
def waitedHost (url : Utf16Text) : Option Utf16Text := (safeHost urls url).filter (· ≠ [])

/-- `politeWait`, up to its sleep. -/
def politeWait (s : Workers) (w : ℕ) (target : Utf16Text) : Workers :=
  match waitedHost urls target with
  | none => s.fetch w target
  | some host =>
    let last := (s.lastHitByHost host).getD 0
    let wait := last + perHostMinInterval - s.now
    if 0 < wait then s.set w (.sleeping target host last (s.now + wait))
    else (s.hit host).fetch w target

/-- The workers of `runWithConcurrency` for the pages of a crawl. -/
def crawlWorkers (targets : List Utf16Text) : Machine Workers WorkerStep where
  step s
    | .takes w =>
      if s.workers[w]? = some .next then
        match targets[s.i]? with
        | none => some (s.set w .done)
        | some target => some (politeWait urls { s with i := s.i + 1 } w target)
      else none
    | .wakes w =>
      match s.workers[w]? with
      | some (.sleeping target host _ wakeAt) =>
        if wakeAt ≤ s.now then some ((s.hit host).fetch w target) else none
      | _ => none
    | .fetched w =>
      match s.workers[w]? with
      | some (.fetching _) => some (s.set w .next)
      | _ => none
    | .passes d => some { s with now := s.now + d }

/-- Two fetches, the first of which was started first, keep the interval if they are on a host. -/
def Apart (a b : PageFetch) : Prop :=
  ∀ host, waitedHost urls a.target = some host → waitedHost urls b.target = some host →
    a.start + perHostMinInterval ≤ b.start

/-- **Any two fetches on a host start at least the interval apart.** -/
def Workers.Polite (s : Workers) : Prop :=
  s.fetches.Pairwise (Apart urls)

/-- A worker that wakes may go on: the entry of its host is the one that it read before it slept,
or what has replaced it is an interval back. -/
def Workers.Heeds (s : Workers) (w : ℕ) : Prop :=
  ∀ target host last wakeAt, s.workers[w]? = some (.sleeping target host last wakeAt) →
    (s.lastHitByHost host).getD 0 = last ∨
      (s.lastHitByHost host).getD 0 + perHostMinInterval ≤ s.now

/-- What the workers share is right: the entry of a host is its last fetch, and a worker sleeps for
the host of its address, for an interval behind what it read. -/
structure Workers.Tracks (s : Workers) : Prop where
  entry : ∀ host last, s.lastHitByHost host = some last → last ≤ s.now ∧
    ∃ f ∈ s.fetches, waitedHost urls f.target = some host ∧ f.start = last
  fetch : ∀ f ∈ s.fetches, ∀ host, waitedHost urls f.target = some host →
    ∃ last, s.lastHitByHost host = some last ∧ f.start ≤ last
  sleep : ∀ target host last wakeAt, .sleeping target host last wakeAt ∈ s.workers →
    waitedHost urls target = some host ∧ last + perHostMinInterval ≤ wakeAt ∧
      (s.lastHitByHost host = none → last = 0)

variable {urls} {s t : Workers} {targets : List Utf16Text} {w : ℕ} {target host : Utf16Text}

/-! ### What a step does -/

theorem tracks_start (targets : List Utf16Text) (limit now : ℕ) :
    (Workers.start targets limit now).Tracks urls where
  entry _ _ h := by cases h
  fetch _ h := by cases h
  sleep _ _ _ _ h := by cases List.eq_of_mem_replicate h

/-- A worker goes on; if it sleeps, it has read what it has to. -/
theorem Workers.Tracks.set (h : s.Tracks urls) {worker : Worker}
    (hsleep : ∀ target host last wakeAt, worker = .sleeping target host last wakeAt →
      waitedHost urls target = some host ∧ last + perHostMinInterval ≤ wakeAt ∧
        (s.lastHitByHost host = none → last = 0)) : (s.set w worker).Tracks urls where
  entry := h.entry
  fetch := h.fetch
  sleep target host last wakeAt hmem := by
    rcases List.mem_or_eq_of_mem_set hmem with hold | hnew
    · exact h.sleep target host last wakeAt hold
    · exact hsleep target host last wakeAt hnew.symm

/-- A fetch that waits for no host leaves the entries as they are. -/
theorem Workers.Tracks.fetch_unwaited (h : s.Tracks urls) (hnone : waitedHost urls target = none) :
    (s.fetch w target).Tracks urls where
  entry host last hlast := by
    obtain ⟨hle, f, hf, hhost, hstart⟩ := h.entry host last hlast
    exact ⟨hle, f, List.mem_append_left _ hf, hhost, hstart⟩
  fetch f hf host hhost := by
    rcases List.mem_append.1 hf with hold | hnew
    · exact h.fetch f hold host hhost
    · obtain rfl := List.mem_singleton.1 hnew
      rw [hnone] at hhost
      cases hhost
  sleep := by
    have hset : (s.set w (.fetching target)).Tracks urls := h.set fun _ _ _ _ heq => by cases heq
    exact hset.sleep

/-- A fetch whose hit is recorded is the last one of its host. -/
theorem Workers.Tracks.fetch_hit (h : s.Tracks urls) (hhost : waitedHost urls target = some host) :
    ((s.hit host).fetch w target).Tracks urls where
  entry other last hlast := by
    by_cases hother : other = host
    · subst hother
      obtain rfl : s.now = last := Option.some.inj ((s.hit_self other).symm.trans hlast)
      exact ⟨Nat.le_refl _, _, List.mem_concat_self, hhost, rfl⟩
    · obtain ⟨hle, f, hf, hhost', hstart⟩ :=
        h.entry other last ((s.hit_of_ne hother).symm.trans hlast)
      exact ⟨hle, f, List.mem_append_left _ hf, hhost', hstart⟩
  fetch f hf other hother := by
    by_cases heq : other = host
    · subst heq
      refine ⟨s.now, s.hit_self other, ?_⟩
      rcases List.mem_append.1 hf with hold | hnew
      · obtain ⟨last, hlast, hle⟩ := h.fetch f hold other hother
        exact hle.trans (h.entry other last hlast).1
      · exact (List.mem_singleton.1 hnew) ▸ Nat.le_refl _
    · rcases List.mem_append.1 hf with hold | hnew
      · obtain ⟨last, hlast, hle⟩ := h.fetch f hold other hother
        exact ⟨last, (s.hit_of_ne heq).trans hlast, hle⟩
      · obtain rfl := List.mem_singleton.1 hnew
        exact absurd (Option.some.inj (hother.symm.trans hhost)) heq
  sleep target' other last wakeAt hmem := by
    rcases List.mem_or_eq_of_mem_set hmem with hold | hnew
    · obtain ⟨hwaited, hwake, hnone⟩ := h.sleep target' other last wakeAt hold
      refine ⟨hwaited, hwake, fun hentry => hnone ?_⟩
      by_cases heq : other = host
      · subst heq
        cases (s.hit_self other).symm.trans hentry
      · exact (s.hit_of_ne heq).symm.trans hentry
    · cases hnew

/-- The time goes on. -/
theorem Workers.Tracks.passes (h : s.Tracks urls) (d : ℕ) :
    ({ s with now := s.now + d } : Workers).Tracks urls where
  entry host last hlast := by
    obtain ⟨hle, hfetch⟩ := h.entry host last hlast
    exact ⟨hle.trans (Nat.le_add_right _ _), hfetch⟩
  fetch := h.fetch
  sleep := h.sleep

theorem polite_concat {f : PageFetch} {workers : List Worker} {i : ℕ}
    {lastHitByHost : Utf16Text → Option ℕ} {now : ℕ} :
    Workers.Polite urls ⟨i, lastHitByHost, now, workers, s.fetches ++ [f]⟩ ↔
      s.Polite urls ∧ ∀ g ∈ s.fetches, Apart urls g f := by
  simp only [Workers.Polite, List.pairwise_append, List.pairwise_singleton, true_and,
    List.mem_singleton, forall_eq]

/-- A fetch that waits for no host is apart from all. -/
theorem polite_fetch_unwaited (hnone : waitedHost urls target = none) :
    (s.fetch w target).Polite urls ↔ s.Polite urls := by
  refine polite_concat.trans (and_iff_left fun g _ host _ hhost => ?_)
  rw [hnone] at hhost
  cases hhost

/-- **A fetch keeps the crawl polite** exactly if the entry of its host is an interval back. -/
theorem polite_fetch_hit (h : s.Tracks urls) (hhost : waitedHost urls target = some host) :
    ((s.hit host).fetch w target).Polite urls ↔
      s.Polite urls ∧
        ∀ last, s.lastHitByHost host = some last → last + perHostMinInterval ≤ s.now := by
  refine polite_concat.trans (and_congr_right fun _ => ?_)
  constructor
  · intro hapart last hlast
    obtain ⟨-, f, hf, hfhost, rfl⟩ := h.entry host last hlast
    exact hapart f hf host hfhost hhost
  · intro hback f hf other hother hother'
    obtain rfl := Option.some.inj (hother'.symm.trans hhost)
    obtain ⟨last, hlast, hle⟩ := h.fetch f hf other hother
    exact (Nat.add_le_add_right hle _).trans (hback last hlast)

/-- A worker that takes an address waits as long as the entry of its host demands. -/
theorem polite_politeWait (h : s.Tracks urls) :
    (politeWait urls s w target).Tracks urls ∧
      ((politeWait urls s w target).Polite urls ↔ s.Polite urls) := by
  unfold politeWait
  cases hhost : waitedHost urls target with
  | none => exact ⟨h.fetch_unwaited hhost, polite_fetch_unwaited hhost⟩
  | some host =>
    dsimp only
    split_ifs with hwait
    · refine ⟨h.set ?_, Iff.rfl⟩
      rintro _ _ _ _ ⟨⟩
      exact ⟨hhost, by omega, fun hnone => by rw [hnone]; rfl⟩
    · refine ⟨h.fetch_hit hhost, (polite_fetch_hit h hhost).trans (and_iff_left ?_)⟩
      intro last hlast
      rw [hlast, Option.getD_some] at hwait
      omega

/-- A worker that wakes keeps the crawl polite exactly if it may go on. -/
theorem polite_wakes (h : s.Tracks urls) {last wakeAt : ℕ}
    (hw : s.workers[w]? = some (.sleeping target host last wakeAt)) (hwake : wakeAt ≤ s.now) :
    ((s.hit host).fetch w target).Tracks urls ∧
      (((s.hit host).fetch w target).Polite urls ↔ s.Polite urls ∧ s.Heeds w) := by
  obtain ⟨hhost, hle, hnone⟩ := h.sleep target host last wakeAt (List.mem_of_getElem? hw)
  refine ⟨h.fetch_hit hhost, (polite_fetch_hit h hhost).trans (and_congr_right fun _ => ?_)⟩
  constructor
  · rintro hback _ _ _ _ hw'
    cases hw.symm.trans hw'
    cases hentry : s.lastHitByHost host with
    | none => exact .inl (hnone hentry).symm
    | some hit => exact .inr (hback hit hentry)
  · intro hheeds hit hentry
    rcases hheeds target host last wakeAt hw with hsame | hback
    · rw [hentry, Option.getD_some] at hsame
      omega
    · rw [hentry, Option.getD_some] at hback
      exact hback

variable {a : WorkerStep}

/-- **Step lemma.** A step keeps the crawl polite exactly if a worker that wakes in it may go
on. -/
theorem polite_step (h : s.Tracks urls) (hstep : (crawlWorkers urls targets).step s a = some t) :
    t.Tracks urls ∧ (t.Polite urls ↔ s.Polite urls ∧ ∀ w, a = .wakes w → s.Heeds w) := by
  have hidle : (∀ w, a ≠ .wakes w) → ∀ {P : Prop}, t.Tracks urls ∧ (t.Polite urls ↔ P) →
      t.Tracks urls ∧ (t.Polite urls ↔ P ∧ ∀ w, a = .wakes w → s.Heeds w) := fun ha P hP =>
    ⟨hP.1, hP.2.trans (and_iff_left fun w hw => absurd hw (ha w)).symm⟩
  cases a with
  | takes w =>
    refine hidle (fun _ => nofun) ?_
    simp only [crawlWorkers] at hstep
    split at hstep
    · split at hstep
      · cases hstep
        exact ⟨h.set nofun, Iff.rfl⟩
      · cases hstep
        exact polite_politeWait ⟨h.entry, h.fetch, h.sleep⟩
    · cases hstep
  | wakes w =>
    simp only [crawlWorkers] at hstep
    split at hstep
    · rename_i target host last wakeAt hw
      split at hstep
      · rename_i hwake
        cases hstep
        obtain ⟨htracks, hiff⟩ := polite_wakes h hw hwake
        refine ⟨htracks, hiff.trans (and_congr_right fun _ => ?_)⟩
        exact ⟨fun hheeds _ heq => WorkerStep.wakes.inj heq ▸ hheeds, fun hall => hall w rfl⟩
      · cases hstep
    · cases hstep
  | fetched w =>
    refine hidle (fun _ => nofun) ?_
    simp only [crawlWorkers] at hstep
    split at hstep
    · cases hstep
      exact ⟨h.set nofun, Iff.rfl⟩
    · cases hstep
  | passes d =>
    refine hidle (fun _ => nofun) ?_
    cases hstep
    exact ⟨h.passes d, Iff.rfl⟩

/-! ### Runs -/

/-- Each worker that wakes on a run may go on. -/
def HeedsAlong (urls : UrlParser U) (targets : List Utf16Text) (s : Workers)
    (steps : List WorkerStep) : Prop :=
  ∀ before w after t, steps = before ++ .wakes w :: after →
    (crawlWorkers urls targets).run s before = some t → t.Heeds w

theorem heedsAlong_concat {steps : List WorkerStep}
    (hrun : (crawlWorkers urls targets).run s steps = some t) :
    HeedsAlong urls targets s (steps ++ [a]) ↔
      HeedsAlong urls targets s steps ∧ ∀ w, a = .wakes w → t.Heeds w := by
  constructor
  · intro h
    refine ⟨fun before w after r heq => h before w (after ++ [a]) r ?_, ?_⟩
    · rw [heq, List.append_assoc, List.cons_append]
    · rintro w rfl
      exact h steps w [] t rfl hrun
  · rintro ⟨hold, hnew⟩ before w after r heq hr
    rcases List.eq_nil_or_concat after with rfl | ⟨after, b, rfl⟩
    · obtain ⟨rfl, ha⟩ := List.append_inj' heq rfl
      cases ha
      cases hrun.symm.trans hr
      exact hnew w rfl
    · rw [List.concat_eq_append, ← List.cons_append, ← List.append_assoc] at heq
      exact hold before w after r (List.append_inj' heq rfl).1 hr

/-- **A crawl is polite on a run exactly if each worker that wakes on it may go on**: nobody has hit
the host since the worker read its entry, or the last hit is an interval back. -/
theorem polite_iff (urls : UrlParser U) (targets : List Utf16Text) (limit now : ℕ)
    (steps : List WorkerStep) (s : Workers)
    (hrun : (crawlWorkers urls targets).run (.start targets limit now) steps = some s) :
    s.Polite urls ↔ HeedsAlong urls targets (.start targets limit now) steps := by
  have hmain : ∀ steps s,
      (crawlWorkers urls targets).run (.start targets limit now) steps = some s →
        s.Tracks urls ∧
          (s.Polite urls ↔ HeedsAlong urls targets (.start targets limit now) steps) := by
    intro steps
    induction steps using List.reverseRecOn with
    | nil =>
      rintro _ ⟨⟩
      refine ⟨tracks_start targets limit now, iff_of_true List.Pairwise.nil ?_⟩
      intro before w after _ heq
      cases before <;> cases heq
    | append_singleton steps a ih =>
      intro s hrun
      obtain ⟨r, hr, hstep⟩ := Machine.run_concat_eq_some _ |>.1 hrun
      obtain ⟨htracks, hiff⟩ := ih r hr
      obtain ⟨htracks', hiff'⟩ := polite_step htracks hstep
      exact ⟨htracks', hiff'.trans ((and_congr_left' hiff).trans (heedsAlong_concat hr).symm)⟩
  exact (hmain steps s hrun).2

/-- Three pages of a host. -/
def threePages : List Utf16Text :=
  [utf16 "https://a.example/", utf16 "https://a.example/b", utf16 "https://a.example/c"]

/-- Of two pages the second worker sleeps for the interval that is left, and nobody has hit the host
when it wakes: the fetches are an interval apart. -/
theorem polite_iff_two_pages : ∃ s,
    (crawlWorkers plainUrls (threePages.take 2)).run
      (.start (threePages.take 2) fetchConcurrency 1000)
      [.takes 0, .takes 1, .passes 250, .wakes 1] = some s ∧
    s.fetches = [⟨utf16 "https://a.example/", 1000⟩, ⟨utf16 "https://a.example/b", 1250⟩] ∧
    s.Polite plainUrls ∧
    HeedsAlong plainUrls (threePages.take 2) (.start (threePages.take 2) fetchConcurrency 1000)
      [.takes 0, .takes 1, .passes 250, .wakes 1] := by
  have hrun : ((crawlWorkers plainUrls (threePages.take 2)).run
      (.start (threePages.take 2) fetchConcurrency 1000)
      [.takes 0, .takes 1, .passes 250, .wakes 1]).map (·.fetches) =
        some [⟨utf16 "https://a.example/", 1000⟩, ⟨utf16 "https://a.example/b", 1250⟩] := by
    decide +kernel
  obtain ⟨s, hs, hfetches⟩ := Option.map_eq_some_iff.1 hrun
  have hpolite : s.Polite plainUrls := by
    rw [Workers.Polite, hfetches]
    refine List.pairwise_pair.2 fun host _ _ => ?_
    decide
  exact ⟨s, hs, hfetches, hpolite, (polite_iff plainUrls _ _ _ _ s hs).1 hpolite⟩

/-- Two workers that slept for the same hit wake at the same time. -/
theorem sleepers_impolite :
    ¬ ∀ (targets : List Utf16Text) (limit now : ℕ) (steps : List WorkerStep) (s : Workers),
      (crawlWorkers plainUrls targets).run (.start targets limit now) steps = some s →
        s.Polite plainUrls := by
  intro h
  have hrun : ((crawlWorkers plainUrls threePages).run (.start threePages fetchConcurrency 1000)
      [.takes 0, .takes 1, .takes 2, .passes 250, .wakes 1, .wakes 2]).map (·.fetches) =
        some [⟨utf16 "https://a.example/", 1000⟩, ⟨utf16 "https://a.example/b", 1250⟩,
          ⟨utf16 "https://a.example/c", 1250⟩] := by
    decide +kernel
  obtain ⟨s, hs, hfetches⟩ := Option.map_eq_some_iff.1 hrun
  have hpolite := h threePages fetchConcurrency 1000 _ s hs
  rw [Workers.Polite, hfetches] at hpolite
  have hlast := List.rel_of_pairwise_cons (List.pairwise_cons.1 hpolite).2
    (List.mem_singleton_self _)
  have hhost : waitedHost plainUrls (utf16 "https://a.example/b") = some (utf16 "a.example") ∧
      waitedHost plainUrls (utf16 "https://a.example/c") = some (utf16 "a.example") := by
    decide +kernel
  exact absurd (hlast _ hhost.1 hhost.2) (by decide)

end Politeness

end Munin.Agent
