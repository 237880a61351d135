import Munin.Journeys.Handshake

/-!
# A journey publishes what was reviewed

Between the request and the confirmation of a publication a draft can be edited, and other requests
can be made. The confirmation names the reviewed content by its fingerprint alone. This file shows
that the fingerprint suffices: a version goes live with the spec hash and the template hashes of the
request that returned the fingerprint, and nobody edited the draft in between.

* **`JourneyVersion.RequestStands`** — a request returned the fingerprint for the version as it is.
* **`Org.Sound`** — the invariant: a draft that has a fingerprint has one that stands.
* **`publishCanonical_inj`** — what the text behind a fingerprint pins down.
* **`publishes_reviewed`** — what a confirmation makes live.
-/

namespace Munin

open Foundations

/-! ### What was reviewed -/

/-- A request returned this fingerprint for the version as it is, and the journey was not edited
since. -/
def JourneyVersion.RequestStands (v : JourneyVersion) (history : List PublishEvent) (id : String)
    (fingerprint : String) : Prop :=
  ∃ before since autoNodes templates,
    history =
      before ++ .requested id v.number fingerprint v.specHash autoNodes templates :: since ∧
    (∀ n, .edited id n ∉ since) ∧ v.pinnedTemplates = sortFields jsonbRank templates

/-- The version's fingerprint, if it has one, is that of a request that stands. -/
def JourneyVersion.Reviewed (v : JourneyVersion) (history : List PublishEvent) (id : String) :
    Prop :=
  ∀ fingerprint, v.publishFingerprint = some fingerprint → v.RequestStands history id fingerprint

section Reviewed

variable {P : Platform} {org : Org} {call : JourneyCall} {j j' : Journey}
  {history events : List PublishEvent}

/-- A request stands until the journey is edited. -/
theorem JourneyVersion.Reviewed.append {v : JourneyVersion} {id : String}
    (h : v.Reviewed history id) (hevents : ∀ n, .edited id n ∉ events) :
    v.Reviewed (history ++ events) id := by
  intro fingerprint hfp
  obtain ⟨before, since, autoNodes, templates, rfl, hsince, hpinned⟩ := h fingerprint hfp
  refine ⟨before, since ++ events, autoNodes, templates, ?_, fun n hn => ?_, hpinned⟩
  · rw [List.append_assoc, List.cons_append]
  · rcases List.mem_append.1 hn with hn | hn
    · exact hsince n hn
    · exact hevents n hn

/-- An edited journey has no fingerprint on its draft. -/
theorem Journey.Ordered.fingerprint_writeDraft (h : j.Ordered) {spec : RawSpec}
    {v' : JourneyVersion} (hv' : v' ∈ (j.writeDraft P spec).versions)
    (hdraft : v'.publishedAt = none) : v'.publishFingerprint = none := by
  unfold Journey.writeDraft at hv'
  split at hv'
  · rename_i hlatest
    have hnil : j.versions = [] := List.getLast?_eq_none_iff.1 hlatest
    simp only [hnil, List.nil_append, List.mem_singleton] at hv'
    rw [hv']
    rfl
  · rename_i latest hlatest
    have hmem := mem_of_latestVersion hlatest
    split at hv'
    · -- the draft is the newest version, so the write reaches it
      rename_i hlatestDraft
      obtain ⟨v, hv, rfl⟩ := mem_updateVersions.1 hv'
      split
      · rfl
      · rename_i hguard
        rw [if_neg hguard] at hdraft
        have hv_eq := h.draft_unique hv hmem hdraft (Option.isNone_iff_eq_none.1 hlatestDraft)
        rw [hv_eq] at hguard
        simp [hlatestDraft] at hguard
    · rename_i hpublished
      rcases List.mem_append.1 hv' with hv' | hv'
      · have hne : latest.publishedAt ≠ none := fun hnone => hpublished (by rw [hnone]; rfl)
        exact absurd hdraft (h.published_of_latest hlatest hne hv')
      · rw [List.mem_singleton.1 hv']
        rfl

/-- **No call leaves a fingerprint on a draft that was edited after its request.** -/
theorem JourneyChange.reviewed (hc : JourneyChange P org call j events j') (hordered : j.Ordered)
    (h : ∀ v ∈ j.versions, v.publishedAt = none → v.Reviewed org.history j.id) :
    ∀ v ∈ j'.versions, v.publishedAt = none → v.Reviewed (org.history ++ events) j'.id := by
  intro v' hv' hdraft
  cases hc with
  | kept hother =>
    exact (h v' hv' hdraft).append fun n hn => hother _ hn rfl
  | edited spec =>
    intro fingerprint hfp
    rw [hordered.fingerprint_writeDraft hv' hdraft] at hfp
    cases hfp
  | @requested _ _ r hok =>
    obtain ⟨v, hv, rfl⟩ := mem_updateVersions.1 hv'
    split
    · rename_i hguard
      simp only [Bool.and_eq_true, decide_eq_true_eq] at hguard
      obtain ⟨⟨hnumber, hhash⟩, -⟩ := hguard
      intro fingerprint hfp
      obtain rfl : r.fingerprint = fingerprint := Option.some.inj hfp
      refine ⟨org.history, [], r.autoNodes, r.templates, ?_, by simp, rfl⟩
      rw [← hnumber, ← hhash]
      rfl
    · rename_i hguard
      rw [if_neg hguard] at hdraft
      exact (h v hv hdraft).append (by simp)
  | published _ hok =>
    obtain ⟨v, hv, rfl⟩ := mem_updateVersions.1 hv'
    split
    · rename_i hguard
      rw [if_pos hguard] at hdraft
      cases hdraft
    · rename_i hguard
      rw [if_neg hguard] at hdraft
      exact (h v hv hdraft).append (by simp)
  | moved status =>
    exact (h v' hv' hdraft).append (by simp)

end Reviewed

/-! ### Every run -/

/-- The invariant of an organisation's journeys. -/
structure Org.Sound (P : Platform) (org : Org) : Prop extends org.Consistent P where
  reviewed : ∀ j ∈ org.journeys, ∀ v ∈ j.versions, v.publishedAt = none →
    v.Reviewed org.history j.id
  hashed : ∀ e ∈ org.history, e.Hashed P

section Runs

variable {P : Platform} {org : Org}

/-- **One call keeps the journeys sound.** -/
theorem Org.Sound.call (h : org.Sound P) (call : JourneyCall) : (org.call P call).Sound P := by
  obtain ⟨events, hhistory, hhashed, hjourneys⟩ := changes_of_call (P := P) h.ids call
  refine ⟨h.toConsistent.call call, fun j' hj' => ?_, fun e he => ?_⟩
  · rw [hhistory]
    rcases hjourneys j' hj' with ⟨-, id, spec, rfl, -⟩ | ⟨j, hj, hc⟩
    · intro v hv _ fingerprint hfp
      rw [List.mem_singleton.1 hv] at hfp
      cases hfp
    · exact hc.reviewed (h.ordered j hj) (h.reviewed j hj)
  · rw [hhistory] at he
    rcases List.mem_append.1 he with he | he
    · exact h.hashed e he
    · exact hhashed e he

/-- The journeys of every reachable organisation are sound. -/
theorem sound_of_reachable (h : (orgMachine P).Reachable (· = {}) org) : org.Sound P := by
  refine h.invariant (fun s hs => ?_) fun s t call hr hsound _ hstep => ?_
  · subst hs
    exact ⟨consistent_of_reachable (.start rfl), by simp, by simp⟩
  · obtain rfl : s.call P call = t := Option.some.inj hstep
    exact hsound.call call

end Runs

/-! ### Fingerprints -/

section Fingerprints

variable {P : Platform}

variable {templates templates' : List (String × String)}

variable {auto auto' : List NodeId}

/-- **What a publication's canonical text pins down.** -/
theorem publishCanonical_inj {id id' : String} {n n' : Nat} {hash hash' : String}
    (h : publishCanonical P id n hash auto templates =
      publishCanonical P id' n' hash' auto' templates') :
    id = id' ∧ n = n' ∧ hash = hash' ∧ templates.Perm templates' := by
  have hjson := Json.stringify_injective h
  simp only [Json.arr.injEq, List.cons.injEq, Json.str.injEq, Json.num.injEq, and_true] at hjson
  obtain ⟨hid, hn, hhash, -, htemplates⟩ := hjson
  have hentry : Function.Injective fun e : String × String => Json.arr [.str e.1, .str e.2] := by
    intro a b hab
    simp only [Json.arr.injEq, List.cons.injEq, Json.str.injEq, and_true] at hab
    exact Prod.ext hab.1 hab.2
  have hsorted := List.map_injective_iff.2 hentry htemplates
  have hperm := List.perm_insertionSort (fun a b : String × String => P.collate a.1 b.1 = true)
  exact ⟨hid, NumberText.ofNat_injective hn, hhash,
    (hperm templates).symm.trans (hsorted ▸ hperm templates')⟩

/-- The text whose digest a request returned. -/
def PublishEvent.canonical (P : Platform) : PublishEvent → Option String
  | .requested id number _ specHash autoNodes templates =>
    some (publishCanonical P id number specHash autoNodes templates)
  | .edited .. | .published .. => none

/-- The digest tells the texts of all requests apart. -/
def Org.CollisionFree (P : Platform) (org : Org) : Prop :=
  ∀ s ∈ org.history.filterMap (·.canonical P), ∀ t ∈ org.history.filterMap (·.canonical P),
    Distinguishes P.sha256Hex s t

/-- Requests that returned one fingerprint were for the same version, spec hash and template
hashes. -/
theorem same_of_fingerprint_eq {org : Org} (hsound : org.Sound P) (hfree : org.CollisionFree P)
    {id id' : String} {n n' : Nat} {fingerprint hash hash' : String}
    (h : .requested id n fingerprint hash auto templates ∈ org.history)
    (h' : .requested id' n' fingerprint hash' auto' templates' ∈ org.history) :
    id = id' ∧ n = n' ∧ hash = hash' ∧ templates.Perm templates' := by
  have heq : publishFingerprint P id n hash auto templates =
      publishFingerprint P id' n' hash' auto' templates' :=
    (hsound.hashed _ h).symm.trans (hsound.hashed _ h')
  exact publishCanonical_inj (hfree _ (List.mem_filterMap.2 ⟨_, h, rfl⟩) _
    (List.mem_filterMap.2 ⟨_, h', rfl⟩) heq)

end Fingerprints

/-! ### The result -/

/-- What a confirmation makes live: the version that a request with its fingerprint was for, not
edited since, with the spec hash and the template hashes of every such request. -/
def MakesLiveReviewed (P : Platform) (org org' : Org) (id : String) (number : Nat)
    (fingerprint : String) (now : Instant) : Prop :=
  ∃ j ∈ org'.journeys, j.id = id ∧ j.liveVersion = some number ∧
    ∃ v, j.versionRow number = some v ∧ v.publishedAt = some now ∧
      v.specHash = hashSpec P.sha256Hex v.spec.1 ∧
      v.RequestStands org.history id fingerprint ∧
      ∀ id' n hash autoNodes templates,
        .requested id' n fingerprint hash autoNodes templates ∈ org.history →
        id' = id ∧ n = number ∧ hash = v.specHash ∧ templates.Perm v.pinnedTemplates

section Result

variable {P : Platform} {org : Org}

/-- The version that a confirmation publishes. -/
theorem makesLiveReviewed_of_confirmPublish (hsound : org.Sound P) (hfree : org.CollisionFree P)
    {id : String} {number : Nat} {fingerprint : String} {actor : Actor}
    {templates : EmailTemplates} {now : Instant} {row : JourneyVersion}
    (hok : confirmPublish P org id number fingerprint actor templates = .ok row) :
    MakesLiveReviewed P org (org.call P (.confirmPublish id number fingerprint actor templates now))
      id number fingerprint now := by
  obtain ⟨-, j, hload, -, hrow, hdraft, ⟨-, hfp, hhash⟩, -⟩ := confirmPublish_eq_ok.1 hok
  obtain ⟨hj, rfl⟩ := mem_of_load hload
  obtain ⟨hmem, rfl⟩ := mem_of_versionRow hrow
  have hstands := hsound.reviewed j hj row hmem hdraft fingerprint hfp
  have hordered : (j.publish row actor now).Ordered := (hsound.ordered j hj).publish hmem
  let published : JourneyVersion :=
    { row with publishedAt := some now, publishedByActorId := some actor.id }
  have hpublished : published ∈ (j.publish row actor now).versions := by
    refine mem_updateVersions.2 ⟨row, hmem, if_pos ?_⟩
    simp [hdraft]
  refine ⟨j.publish row actor now, ?_, rfl, rfl, published,
    versionRow_of_mem hordered.numbers hpublished, rfl, hhash, hstands, ?_⟩
  · rw [Org.call, hok]
    exact mem_update.2 ⟨j, hj, if_pos rfl⟩
  · intro id' n hash autoNodes templates' hrequest
    obtain ⟨before, since, autoNodes₀, templates₀, hhistory, -, hpinned⟩ := hstands
    have hrequest₀ : .requested j.id row.number fingerprint row.specHash autoNodes₀ templates₀ ∈
        org.history := by
      rw [hhistory]
      exact List.mem_append_right _ List.mem_cons_self
    obtain ⟨hid, hn, hhash', hperm⟩ := same_of_fingerprint_eq hsound hfree hrequest hrequest₀
    have hstored : row.pinnedTemplates.Perm templates₀ := hpinned ▸ sortFields_perm _ _
    exact ⟨hid, hn, hhash', hperm.trans hstored.symm⟩

/-- The published versions of the journeys of `org` are versions of theirs in `org'`. -/
def KeepsPublished (org org' : Org) : Prop :=
  ∀ j ∈ org.journeys, ∀ v ∈ j.versions, v.publishedAt ≠ none →
    ∃ j' ∈ org'.journeys, j'.id = j.id ∧ v ∈ j'.versions

theorem KeepsPublished.trans {org₁ org₂ org₃ : Org} (h : KeepsPublished org₁ org₂)
    (h' : KeepsPublished org₂ org₃) : KeepsPublished org₁ org₃ := by
  intro j hj v hv hpublished
  obtain ⟨j₂, hj₂, hid₂, hv₂⟩ := h j hj v hv hpublished
  obtain ⟨j₃, hj₃, hid₃, hv₃⟩ := h' j₂ hj₂ v hv₂ hpublished
  exact ⟨j₃, hj₃, hid₃.trans hid₂, hv₃⟩

/-- Calls keep published versions, one after the other. -/
theorem keepsPublished_of_run {calls : List JourneyCall} {org' : Org} (hsound : org.Sound P)
    (hrun : (orgMachine P).run org calls = some org') : KeepsPublished org org' := by
  induction calls generalizing org with
  | nil =>
    obtain rfl : org = org' := Option.some.inj hrun
    exact fun j hj v hv _ => ⟨j, hj, rfl, hv⟩
  | cons call calls ih =>
    refine KeepsPublished.trans (fun j hj v hv hpublished => ?_) (ih (hsound.call call) hrun)
    obtain ⟨_, j', hj', hc⟩ := change_of_mem (P := P) hsound.ids call hj
    exact ⟨j', hj', hc.id_eq, hc.published_mem hv hpublished⟩

/-- **A journey publishes exactly what was reviewed.** In every run of calls on any number of
journeys, a confirmation that succeeds makes live a version with the spec hash and the template
hashes of the request that returned its fingerprint, not edited since; published versions never
change again; each journey has at most one draft, whose number is the highest; and its live version
is a published one. -/
theorem publishes_reviewed (h : (orgMachine P).Reachable (· = {}) org)
    (hfree : org.CollisionFree P) :
    (∀ id number fingerprint actor templates now row,
      confirmPublish P org id number fingerprint actor templates = .ok row →
      MakesLiveReviewed P org
        (org.call P (.confirmPublish id number fingerprint actor templates now)) id number
        fingerprint now) ∧
    (∀ calls org', (orgMachine P).run org calls = some org' → KeepsPublished org org') ∧
    ∀ j ∈ org.journeys,
      (∀ v ∈ j.versions, v.publishedAt = none → ∀ w ∈ j.versions,
        w.number ≤ v.number ∧ (w.publishedAt = none → w = v)) ∧
      ∀ n, j.liveVersion = some n → ∃ v, j.versionRow n = some v ∧ v.publishedAt ≠ none := by
  have hsound := sound_of_reachable h
  refine ⟨fun id number fingerprint actor templates now row hok =>
    makesLiveReviewed_of_confirmPublish hsound hfree hok,
    fun calls org' hrun => keepsPublished_of_run hsound hrun, fun j hj => ?_⟩
  have hordered := hsound.ordered j hj
  refine ⟨fun v hv hdraft w hw => ⟨hordered.draftLast v hv hdraft w hw, fun hw' =>
    hordered.draft_unique hw hv hw' hdraft⟩, fun n hn => ?_⟩
  obtain ⟨v, hv, rfl, hpublished⟩ := hordered.live n hn
  exact ⟨v, versionRow_of_mem hordered.numbers hv, hpublished⟩

end Result

/-- The journey with one email goes live as it was reviewed. -/
theorem publishes_reviewed_sample :
    ∃ org, ∃ r : PublishRequest, ∃ row, (orgMachine samplePlatform).Reachable (· = {}) org ∧
      confirmPublish samplePlatform org "j1" r.number r.fingerprint samplePerson
        sampleEnv.templates = .ok row ∧
      MakesLiveReviewed samplePlatform org
        (org.call samplePlatform (.confirmPublish "j1" r.number r.fingerprint samplePerson
          sampleEnv.templates 0)) "j1" r.number r.fingerprint 0 := by
  obtain ⟨r, hr⟩ := exists_ok
    (x := requestPublish samplePlatform (draftOrg oneEmail) "j1" none sampleEnv) (by decide)
  have hreach := reachable_draftOrg oneEmail
  have hconsistent := consistent_of_reachable hreach
  have hload : (draftOrg oneEmail).load "j1" =
      .ok (Journey.create samplePlatform "j1" (some oneEmail)) := rfl
  have hsame := load_of_request hload hr
  have hhistory : ((draftOrg oneEmail).call samplePlatform
      (.requestPublish "j1" none sampleEnv)).history =
        [.requested "j1" r.number r.fingerprint r.specHash r.autoNodes r.templates] := by
    rw [Org.call, hr]
    rfl
  have hreach' : (orgMachine samplePlatform).Reachable (· = {})
      ((draftOrg oneEmail).call samplePlatform (.requestPublish "j1" none sampleEnv)) :=
    .step hreach trivial rfl
  generalize (draftOrg oneEmail).call samplePlatform (.requestPublish "j1" none sampleEnv) = org
    at hsame hhistory hreach'
  have hfree : org.CollisionFree samplePlatform := by
    intro s hs t ht _
    simp only [hhistory, List.filterMap_cons, List.filterMap_nil, PublishEvent.canonical,
      List.mem_singleton] at hs ht
    rw [hs, ht]
  have hok := confirm_after_request_ok hconsistent hr hload rfl rfl hsame
    (show samplePerson.type = .user from rfl) (by decide) (by decide)
  exact ⟨org, r, _, hreach', hok, (publishes_reviewed hreach' hfree).1 _ _ _ _ _ 0 _ hok⟩

end Munin
