import Munin.Journeys.Versions

/-!
# What a call does to a journey

The calls on journeys differ in what they check and write, yet all of them keep the versions of a
journey in order. This file says once what a call can do to one journey, and derives that order.

* **`requestPublish_eq_ok`, `confirmPublish_eq_ok`** — all that the two calls of a publication
  check.
* **`JourneyChange`, `changes_of_call`** — what one call can do to a journey.
* **`Journey.Ordered`** — the numbers of the versions increase, only the newest can be a draft, and
  the live one is published; no call breaks it (`JourneyChange.ordered`).
* **`JourneyChange.published_mem`** — a published version never changes again.
* **`consistent_of_reachable`** — what holds of the journeys after any calls.
-/

namespace Munin

open Foundations

/-! ### Journeys by id -/

section Load

variable {org : Org} {id : String} {j : Journey}

theorem mem_of_load (h : org.load id = .ok j) : j ∈ org.journeys ∧ j.id = id := by
  rw [Org.load, orThrow_eq_ok] at h
  exact ⟨List.mem_of_find?_eq_some h, by simpa using List.find?_some h⟩

/-- With distinct ids, each journey is the one that its id loads. -/
theorem load_of_mem (hids : (org.journeys.map (·.id)).Nodup) (hj : j ∈ org.journeys) :
    org.load j.id = .ok j := by
  cases hload : org.journeys.find? (·.id = j.id) with
  | none => simpa using List.find?_eq_none.1 hload j hj
  | some k =>
    have hk := List.mem_of_find?_eq_some hload
    have hid : k.id = j.id := by simpa using List.find?_some hload
    rw [List.inj_on_of_nodup_map hids hk hj hid] at hload
    rw [Org.load, hload, orThrow]

variable {f : Journey → Journey}

/-- The journeys after a write. -/
theorem mem_update {j' : Journey} : j' ∈ (org.update id f).journeys ↔
      ∃ j ∈ org.journeys, (if j.id = id then f j else j) = j' :=
  List.mem_map

/-- A write that keeps the id of its journey keeps all ids. -/
theorem update_ids (hf : ∀ j, (f j).id = j.id) :
    (org.update id f).journeys.map (·.id) = org.journeys.map (·.id) := by
  rw [Org.update, List.map_map]
  refine List.map_congr_left fun j _ => ?_
  rw [Function.comp_apply]
  split
  · exact hf j
  · rfl

/-- A write to one journey does not change what the id of another one loads. -/
theorem load_update_of_ne {id' : String} (hf : ∀ j, (f j).id = j.id)
    (hne : id ≠ id') : (org.update id' f).load id = org.load id := by
  have hfind : ∀ js : List Journey,
      (js.map fun j => if j.id = id' then f j else j).find? (·.id = id) =
        js.find? (·.id = id) := by
    intro js
    induction js with
    | nil => rfl
    | cons j js ih =>
      rw [List.map_cons, List.find?_cons, List.find?_cons, ih]
      by_cases hid : j.id = id'
      · simp [hid, hf, Ne.symm hne]
      · simp [hid]
  rw [Org.load, Org.load, Org.update, hfind]

/-- A write to a journey changes what its id loads. -/
theorem load_update_self (hf : ∀ j, (f j).id = j.id)
    (h : org.load id = .ok j) : (org.update id f).load id = .ok (f j) := by
  have hfind : ∀ js : List Journey, js.find? (·.id = id) = some j →
      (js.map fun j => if j.id = id then f j else j).find? (·.id = id) = some (f j) := by
    intro js hjs
    induction js with
    | nil => cases hjs
    | cons k ks ih =>
      rw [List.find?_cons] at hjs
      rw [List.map_cons, List.find?_cons]
      by_cases hid : k.id = id
      · simp only [hid, decide_true, Option.some.injEq] at hjs
        subst hjs
        simp [hid, hf]
      · simp only [hid, decide_false] at hjs
        simp [hid, ih hjs]
  rw [Org.load, orThrow_eq_ok] at h ⊢
  exact hfind _ h

end Load

/-! ### Versions by number -/

section Rows

variable {j : Journey} {v : JourneyVersion} {n : Nat}

theorem mem_of_versionRow (h : j.versionRow n = some v) : v ∈ j.versions ∧ v.number = n :=
  ⟨List.mem_of_find?_eq_some h, by simpa using List.find?_some h⟩

theorem mem_of_latestVersion (h : j.latestVersion = some v) : v ∈ j.versions :=
  List.mem_of_getLast? h

theorem mem_of_draft (h : j.draft = some v) : v ∈ j.versions :=
  List.mem_reverse.1 (List.mem_of_find?_eq_some h)

theorem mem_of_requestedVersion {number : Option Nat} (h : j.requestedVersion number = .ok v) :
    v ∈ j.versions := by
  unfold Journey.requestedVersion at h
  split at h
  · exact (mem_of_versionRow (orThrow_eq_ok.1 h)).1
  · exact mem_of_draft (orThrow_eq_ok.1 h)

/-- With increasing numbers, each version is the row of its number. -/
theorem versionRow_of_mem (hnumbers : j.versions.Pairwise (·.number < ·.number))
    (hv : v ∈ j.versions) : j.versionRow v.number = some v := by
  have hnodup : (j.versions.map (·.number)).Nodup :=
    List.pairwise_map.2 (hnumbers.imp Nat.ne_of_lt)
  cases hrow : j.versionRow v.number with
  | none => simpa using List.find?_eq_none.1 hrow v hv
  | some w =>
    obtain ⟨hw, hnumber⟩ := mem_of_versionRow hrow
    rw [List.inj_on_of_nodup_map hnodup hw hv hnumber]

/-- The versions after a write. -/
theorem mem_updateVersions {p : JourneyVersion → Bool} {f : JourneyVersion → JourneyVersion}
    {v' : JourneyVersion} :
    v' ∈ (j.updateVersions p f).versions ↔ ∃ v ∈ j.versions, (if p v then f v else v) = v' :=
  List.mem_map

end Rows

/-! ### What the two calls of a publication check -/

section Checks

variable {P : Platform} {org : Org} {id : String}

/-- A request that is accepted. -/
theorem requestPublish_eq_ok {number : Option Nat} {env : RequestEnv} {r : PublishRequest} :
    requestPublish P org id number env = .ok r ↔
      ∃ j, org.load id = .ok j ∧ j.status ≠ .archived ∧
      ∃ draft, j.requestedVersion number = .ok draft ∧ draft.publishedAt = none ∧
      (validateSpec P draft.spec
        { env.refs with journeys := some org.journeyRefs, selfJourneyId := some id }).valid = true ∧
      ∃ spec, P.parseSpec draft.spec = some spec ∧
      (j.live.all fun v => (P.parseSpec v.spec).isSome) = true ∧
      (agentAuto spec).filter (fun n => !(env.reviewStats n.id).readyForAuto) = [] ∧
      ∃ templates, autoTemplateHashes P env.templates spec = .ok templates ∧
      ⟨draft.number, draft.specHash, autoNodes spec, templates,
        publishFingerprint P id draft.number draft.specHash (autoNodes spec) templates⟩ = r := by
  simp only [requestPublish, bind_eq_ok, require_eq_ok, orThrow_eq_ok, exists_const, pure,
    Except.pure, Except.ok.injEq]

/-- A confirmation that is accepted. -/
theorem confirmPublish_eq_ok {number : Nat} {fingerprint : String} {actor : Actor}
    {templates : EmailTemplates} {row : JourneyVersion} :
    confirmPublish P org id number fingerprint actor templates = .ok row ↔
      actor.type = .user ∧ ∃ j, org.load id = .ok j ∧ j.status ≠ .archived ∧
      j.versionRow number = some row ∧ row.publishedAt = none ∧
      (truthy row.publishFingerprint = true ∧ row.publishFingerprint = some fingerprint ∧
        row.specHash = hashSpec P.sha256Hex row.spec.1) ∧
      ∃ spec, P.parseSpec row.spec = some spec ∧
      ∃ pinned, autoTemplateHashes P templates spec = .ok pinned ∧
      (stringRecord pinned).stringify = (stringRecord row.pinnedTemplates).stringify ∧
      spec.entryTimezone.all P.isValidTimezone = true := by
  simp only [confirmPublish, bind_eq_ok, require_eq_ok, orThrow_eq_ok, exists_const, pure,
    Except.pure, Except.ok.injEq]
  constructor
  · rintro ⟨hactor, j, hload, harchived, row', hrow, hpublished, hfp, spec, hspec, pinned, hpinned,
      hsame, hzone, rfl⟩
    exact ⟨hactor, j, hload, harchived, hrow, hpublished, hfp, spec, hspec, pinned, hpinned, hsame,
      hzone⟩
  · rintro ⟨hactor, j, hload, harchived, hrow, hpublished, hfp, spec, hspec, pinned, hpinned, hsame,
      hzone⟩
    exact ⟨hactor, j, hload, harchived, row, hrow, hpublished, hfp, spec, hspec, pinned, hpinned,
      hsame, hzone, rfl⟩

end Checks

/-! ### What one call does to a journey -/

/-- The hash of a new version is the hash of its spec. -/
theorem newVersion_specHash {P : Platform} (number : Nat) (spec : RawSpec) (parent : Option Nat) :
    (newVersion P number spec parent).specHash =
      hashSpec P.sha256Hex (newVersion P number spec parent).spec.1 :=
  (hashSpec_jsonb P.sha256Hex spec.2).symm

/-- The journey that a call was about. -/
def PublishEvent.journeyId : PublishEvent → String
  | .edited id _ => id
  | .requested id .. => id
  | .published id .. => id

/-- A request returned the fingerprint of what it covers. -/
def PublishEvent.Hashed (P : Platform) : PublishEvent → Prop
  | .requested id number fingerprint specHash autoNodes templates =>
    fingerprint = publishFingerprint P id number specHash autoNodes templates
  | .edited .. | .published .. => True

/-- What one call can do to a journey of an organisation, with what is accepted by it. -/
inductive JourneyChange (P : Platform) (org : Org) (call : JourneyCall) (j : Journey) :
    List PublishEvent → Journey → Prop
  | kept {events : List PublishEvent} : (∀ e ∈ events, e.journeyId ≠ j.id) →
      JourneyChange P org call j events j
  | edited (spec : RawSpec) :
      JourneyChange P org call j [.edited j.id j.draftNumber] (j.writeDraft P spec)
  | requested {number : Option Nat} {env : RequestEnv} {r : PublishRequest} :
      requestPublish P org j.id number env = .ok r →
      JourneyChange P org call j
        [.requested j.id r.number r.fingerprint r.specHash r.autoNodes r.templates]
        (j.writeRequest r)
  | published {number : Nat} {fingerprint : String} {actor : Actor} {templates : EmailTemplates}
      {row : JourneyVersion} {now : Instant} :
      call = .confirmPublish j.id number fingerprint actor templates now →
      confirmPublish P org j.id number fingerprint actor templates = .ok row →
      JourneyChange P org call j [.published j.id number fingerprint] (j.publish row actor now)
  | moved (status : JourneyStatus) : JourneyChange P org call j [] { j with status := status }

section Changes

variable {P : Platform} {org : Org}

/-- A write to one journey leaves the others as they are. -/
theorem change_of_update {call : JourneyCall} {id : String} {f : Journey → Journey}
    {events : List PublishEvent} (hevents : ∀ e ∈ events, e.journeyId = id)
    (hchange : ∀ j ∈ org.journeys, j.id = id → JourneyChange P org call j events (f j))
    {j' : Journey} (hj' : j' ∈ (org.update id f).journeys) :
    ∃ j ∈ org.journeys, JourneyChange P org call j events j' := by
  obtain ⟨j, hj, rfl⟩ := mem_update.1 hj'
  refine ⟨j, hj, ?_⟩
  split
  · rename_i hid
    exact hchange j hj hid
  · rename_i hid
    exact .kept fun e he => (hevents e he).trans_ne (Ne.symm hid)

/-- **What one call can do.** Its journeys are new or changed from before. -/
theorem changes_of_call (hids : (org.journeys.map (·.id)).Nodup) (call : JourneyCall) :
    ∃ events, (org.call P call).history = org.history ++ events ∧
      (∀ e ∈ events, e.Hashed P) ∧
      ∀ j' ∈ (org.call P call).journeys,
        (events = [] ∧ ∃ id spec, j' = Journey.create P id spec ∧ ∀ j ∈ org.journeys, j.id ≠ id) ∨
          ∃ j ∈ org.journeys, JourneyChange P org call j events j' := by
  have hsame : ∃ events, org.history = org.history ++ events ∧ (∀ e ∈ events, e.Hashed P) ∧
      ∀ j' ∈ org.journeys,
        (events = [] ∧ ∃ id spec, j' = Journey.create P id spec ∧ ∀ j ∈ org.journeys, j.id ≠ id) ∨
          ∃ j ∈ org.journeys, JourneyChange P org call j events j' :=
    ⟨[], (List.append_nil _).symm, by simp, fun j hj => .inr ⟨j, hj, .kept (by simp)⟩⟩
  cases call with
  | create id spec =>
    rw [Org.call]
    split
    · exact hsame
    · rename_i hnew
      have hfresh : ∀ j ∈ org.journeys, j.id ≠ id := by simpa using hnew
      refine ⟨[], (List.append_nil _).symm, by simp, fun j' hj' => ?_⟩
      rcases List.mem_append.1 hj' with hj' | hj'
      · exact .inr ⟨j', hj', .kept (by simp)⟩
      · exact .inl ⟨rfl, id, spec, List.mem_singleton.1 hj', hfresh⟩
  | editDraft id edit ifSpecHash =>
    rw [Org.call]
    split
    · rename_i journey spec hok
      have hload : org.load id = .ok journey := by
        simp only [editCheck, bind_eq_ok, pure, Except.pure, Except.ok.injEq, Prod.mk.injEq] at hok
        obtain ⟨_, hload, _, _, _, _, _, _, rfl, -⟩ := hok
        exact hload
      refine ⟨_, rfl, by simp [PublishEvent.Hashed], fun j' hj' =>
        .inr (change_of_update (by simp [PublishEvent.journeyId]) ?_ hj')⟩
      rintro j hj rfl
      obtain rfl : j = journey := by
        rw [load_of_mem hids hj] at hload
        exact Except.ok.inj hload
      exact .edited spec
    · exact hsame
  | requestPublish id number env =>
    rw [Org.call]
    split
    · rename_i r hok
      have hfingerprint : r.fingerprint =
          publishFingerprint P id r.number r.specHash r.autoNodes r.templates := by
        obtain ⟨_, _, _, _, _, _, _, _, _, _, _, _, _, rfl⟩ := requestPublish_eq_ok.1 hok
        rfl
      refine ⟨_, rfl, by simpa [PublishEvent.Hashed] using hfingerprint, fun j' hj' =>
        .inr (change_of_update (by simp [PublishEvent.journeyId]) ?_ hj')⟩
      rintro j hj rfl
      exact .requested hok
    · exact hsame
  | confirmPublish id number fingerprint actor templates now =>
    rw [Org.call]
    split
    · rename_i row hok
      refine ⟨_, rfl, by simp [PublishEvent.Hashed], fun j' hj' =>
        .inr (change_of_update (by simp [PublishEvent.journeyId]) ?_ hj')⟩
      rintro j hj rfl
      exact .published rfl hok
    · exact hsame
  | transition id from' to' =>
    rw [Org.call]
    split
    · rename_i journey hload
      split
      · refine ⟨[], (List.append_nil _).symm, by simp, fun j' hj' =>
          .inr (change_of_update (by simp) ?_ hj')⟩
        rintro j hj rfl
        exact .moved to'
      · exact hsame
    · exact hsame

/-- Editing keeps a journey's id. -/
theorem Journey.writeDraft_id (j : Journey) (spec : RawSpec) : (j.writeDraft P spec).id = j.id := by
  unfold Journey.writeDraft
  split
  · rfl
  · split <;> rfl

/-- A journey keeps its id. -/
theorem JourneyChange.id_eq {call : JourneyCall} {events : List PublishEvent} {j j' : Journey}
    (hc : JourneyChange P org call j events j') : j'.id = j.id := by
  cases hc with
  | edited spec => exact j.writeDraft_id spec
  | kept _ | requested _ | published _ _ | moved _ => rfl

variable (P org) in
/-- The ids of the journeys after a call: those before it, and that of a new journey. -/
theorem call_ids (call : JourneyCall) :
    ∃ new, (org.call P call).journeys.map (·.id) = org.journeys.map (·.id) ++ new ∧
      new.Nodup ∧ ∀ id ∈ new, id ∉ org.journeys.map (·.id) := by
  have hsame : ∃ new, org.journeys.map (·.id) = org.journeys.map (·.id) ++ new ∧
      new.Nodup ∧ ∀ id ∈ new, id ∉ org.journeys.map (·.id) :=
    ⟨[], (List.append_nil _).symm, .nil, by simp⟩
  have hupdate : ∀ id (f : Journey → Journey), (∀ j, (f j).id = j.id) →
      ∃ new, (org.update id f).journeys.map (·.id) = org.journeys.map (·.id) ++ new ∧
        new.Nodup ∧ ∀ id ∈ new, id ∉ org.journeys.map (·.id) := by
    intro id f hf
    rw [update_ids hf]
    exact hsame
  cases call with
  | create id spec =>
    rw [Org.call]
    split
    · exact hsame
    · rename_i hnew
      exact ⟨[id], List.map_append, List.nodup_singleton _, by simpa using hnew⟩
  | editDraft id edit ifSpecHash =>
    rw [Org.call]
    split
    · exact hupdate _ _ fun j => j.writeDraft_id _
    · exact hsame
  | requestPublish id number env =>
    rw [Org.call]
    split
    · exact hupdate _ _ fun _ => rfl
    · exact hsame
  | confirmPublish id number fingerprint actor templates now =>
    rw [Org.call]
    split
    · exact hupdate _ _ fun _ => rfl
    · exact hsame
  | transition id from' to' =>
    rw [Org.call]
    split
    · split
      · exact hupdate _ _ fun _ => rfl
      · exact hsame
    · exact hsame

/-- The calls keep the ids of the journeys distinct. -/
theorem call_ids_nodup (hids : (org.journeys.map (·.id)).Nodup) (call : JourneyCall) :
    ((org.call P call).journeys.map (·.id)).Nodup := by
  obtain ⟨new, heq, hnew, hfresh⟩ := call_ids P org call
  rw [heq]
  exact List.nodup_append.2 ⟨hids, hnew, fun a ha b hb hab => hfresh b hb (hab ▸ ha)⟩

/-- **Every journey is there after a call**, changed by it or not. -/
theorem change_of_mem (hids : (org.journeys.map (·.id)).Nodup) (call : JourneyCall) {j : Journey}
    (hj : j ∈ org.journeys) :
    ∃ events, ∃ j' ∈ (org.call P call).journeys, JourneyChange P org call j events j' := by
  obtain ⟨new, heq, -, -⟩ := call_ids P org call
  have hid : j.id ∈ (org.call P call).journeys.map (·.id) := by
    rw [heq]
    exact List.mem_append_left _ (List.mem_map.2 ⟨j, hj, rfl⟩)
  obtain ⟨j', hj', hid'⟩ := List.mem_map.1 hid
  obtain ⟨events, -, -, hjourneys⟩ := changes_of_call (P := P) hids call
  rcases hjourneys j' hj' with ⟨-, id, spec, rfl, hfresh⟩ | ⟨k, hk, hc⟩
  · exact absurd hid'.symm (hfresh j hj)
  · obtain rfl : k = j := List.inj_on_of_nodup_map hids hk hj (hc.id_eq.symm.trans hid')
    exact ⟨events, j', hj', hc⟩

end Changes

/-! ### The versions of a journey -/

/-- The order of a journey's versions: their numbers increase, only the newest can be a draft, and
the live one is published. -/
structure Journey.Ordered (j : Journey) : Prop where
  numbers : j.versions.Pairwise (·.number < ·.number)
  draftLast : ∀ v ∈ j.versions, v.publishedAt = none → ∀ w ∈ j.versions, w.number ≤ v.number
  live : ∀ n, j.liveVersion = some n → ∃ v ∈ j.versions, v.number = n ∧ v.publishedAt ≠ none

section Ordered

variable {P : Platform} {org : Org} {call : JourneyCall} {j j' : Journey}

variable {v w : JourneyVersion} {events : List PublishEvent}

/-- Two versions with one number are one version. -/
theorem Journey.Ordered.number_inj (h : j.Ordered) (hv : v ∈ j.versions)
    (hw : w ∈ j.versions) (hnumber : v.number = w.number) : v = w := by
  have hrow := versionRow_of_mem h.numbers hv
  rw [hnumber, versionRow_of_mem h.numbers hw] at hrow
  exact (Option.some.inj hrow).symm

/-- At most one version is a draft. -/
theorem Journey.Ordered.draft_unique (h : j.Ordered) (hv : v ∈ j.versions)
    (hw : w ∈ j.versions) (hpv : v.publishedAt = none) (hpw : w.publishedAt = none) : v = w := by
  have hle : v.number ≤ w.number := h.draftLast w hw hpw v hv
  have hge : w.number ≤ v.number := h.draftLast v hv hpv w hw
  exact h.number_inj hv hw (le_antisymm hle hge)

variable {latest : JourneyVersion}

/-- The newest version has the highest number. -/
theorem Journey.Ordered.le_latest (h : j.Ordered)
    (hlatest : j.latestVersion = some latest) (hv : v ∈ j.versions) :
    v.number ≤ latest.number := by
  obtain ⟨older, holder⟩ := List.getLast?_eq_some_iff.1 hlatest
  have hnumbers := h.numbers
  rw [holder] at hv hnumbers
  rcases List.mem_append.1 hv with hv | hv
  · exact ((List.pairwise_append.1 hnumbers).2.2 v hv latest (List.mem_singleton_self _)).le
  · rw [List.mem_singleton.1 hv]

/-- A write that keeps the numbers and unpublishes nothing keeps the order. -/
theorem Journey.Ordered.updateVersions (h : j.Ordered) {p : JourneyVersion → Bool}
    {f : JourneyVersion → JourneyVersion} (hnumber : ∀ v, (f v).number = v.number)
    (hpublished : ∀ v, v.publishedAt ≠ none → (f v).publishedAt ≠ none) :
    (j.updateVersions p f).Ordered := by
  have hn : ∀ v, (if p v then f v else v).number = v.number := by
    intro v
    split
    · exact hnumber v
    · rfl
  have hp : ∀ v, v.publishedAt ≠ none → (if p v then f v else v).publishedAt ≠ none := by
    intro v hv
    split
    · exact hpublished v hv
    · exact hv
  constructor
  · refine List.pairwise_map.2 (h.numbers.imp fun {v w} hlt => ?_)
    rw [hn, hn]
    exact hlt
  · intro v' hv' hdraft w' hw'
    obtain ⟨v, hv, rfl⟩ := mem_updateVersions.1 hv'
    obtain ⟨w, hw, rfl⟩ := mem_updateVersions.1 hw'
    rw [hn, hn]
    have hvdraft : v.publishedAt = none := by
      by_contra hne
      exact hp v hne hdraft
    exact h.draftLast v hv hvdraft w hw
  · intro n hlive
    obtain ⟨v, hv, hvn, hvp⟩ := h.live n hlive
    exact ⟨_, mem_updateVersions.2 ⟨v, hv, rfl⟩, (hn v).trans hvn, hp v hvp⟩

/-- A new version after a published one keeps the order. -/
theorem Journey.Ordered.append (h : j.Ordered)
    (hnew : ∀ w ∈ j.versions, w.number < v.number ∧ w.publishedAt ≠ none) :
    ({ j with versions := j.versions ++ [v] } : Journey).Ordered := by
  constructor
  · refine List.pairwise_append.2 ⟨h.numbers, List.pairwise_singleton _ _, fun w hw u hu => ?_⟩
    rw [List.mem_singleton.1 hu]
    exact (hnew w hw).1
  · intro u hu hdraft w hw
    rcases List.mem_append.1 hu with hu | hu
    · exact absurd hdraft (hnew u hu).2
    · obtain rfl := List.mem_singleton.1 hu
      rcases List.mem_append.1 hw with hw | hw
      · exact (hnew w hw).1.le
      · rw [List.mem_singleton.1 hw]
  · intro n hlive
    obtain ⟨w, hw, hwn, hwp⟩ := h.live n hlive
    exact ⟨w, List.mem_append_left _ hw, hwn, hwp⟩

/-- After a published newest version, nothing is a draft. -/
theorem Journey.Ordered.published_of_latest (h : j.Ordered)
    (hlatest : j.latestVersion = some latest) (hpublished : latest.publishedAt ≠ none)
    (hw : w ∈ j.versions) : w.publishedAt ≠ none := by
  intro hdraft
  have hmem := mem_of_latestVersion hlatest
  have hnumber : w.number = latest.number :=
    le_antisymm (h.le_latest hlatest hw) (h.draftLast w hw hdraft latest hmem)
  exact hpublished (h.number_inj hw hmem hnumber ▸ hdraft)

/-- Editing keeps the order. -/
theorem Journey.Ordered.writeDraft (h : j.Ordered) (spec : RawSpec) :
    (j.writeDraft P spec).Ordered := by
  unfold Journey.writeDraft
  split
  · rename_i hlatest
    have hnil : j.versions = [] := List.getLast?_eq_none_iff.1 hlatest
    refine h.append fun w hw => ?_
    rw [hnil] at hw
    cases hw
  · rename_i latest hlatest
    split
    · exact h.updateVersions (fun _ => rfl) fun _ hv => hv
    · rename_i hpublished
      have hne : latest.publishedAt ≠ none := fun hnone => hpublished (by rw [hnone]; rfl)
      refine h.append fun w hw => ⟨?_, h.published_of_latest hlatest hne hw⟩
      exact Nat.lt_succ_of_le (h.le_latest hlatest hw)

/-- Publishing keeps the order. -/
theorem Journey.Ordered.publish (h : j.Ordered) {row : JourneyVersion} {actor : Actor}
    {now : Instant} (hrow : row ∈ j.versions) : (j.publish row actor now).Ordered := by
  have hversions := h.updateVersions
    (p := fun v => v.number = row.number && v.publishedAt.isNone)
    (f := fun v => { v with publishedAt := some now, publishedByActorId := some actor.id })
    (fun _ => rfl) fun _ _ => Option.some_ne_none _
  refine ⟨hversions.numbers, hversions.draftLast, fun n hn => ?_⟩
  obtain rfl : row.number = n := Option.some.inj hn
  refine ⟨_, mem_updateVersions.2 ⟨row, hrow, rfl⟩, ?_, ?_⟩
  · split <;> rfl
  · split
    · exact Option.some_ne_none _
    · rename_i hkept
      intro hdraft
      simp [hdraft] at hkept

/-- **No call breaks the order of a journey's versions.** -/
theorem JourneyChange.ordered
    (hc : JourneyChange P org call j events j') (hload : org.load j.id = .ok j) (h : j.Ordered) :
    j'.Ordered := by
  cases hc with
  | kept _ => exact h
  | edited spec => exact h.writeDraft spec
  | requested _ => exact h.updateVersions (fun _ => rfl) fun _ hv => hv
  | published _ hok =>
    obtain ⟨-, k, hk, -, hrow, -⟩ := confirmPublish_eq_ok.1 hok
    obtain rfl : j = k := Except.ok.inj (hload.symm.trans hk)
    exact h.publish (mem_of_versionRow hrow).1
  | moved status => exact ⟨h.numbers, h.draftLast, h.live⟩

/-- **A published version never changes again.** -/
theorem JourneyChange.published_mem
    (hc : JourneyChange P org call j events j') (hv : v ∈ j.versions)
    (hpublished : v.publishedAt ≠ none) : v ∈ j'.versions := by
  have hupdate : ∀ (q : JourneyVersion → Bool) (f : JourneyVersion → JourneyVersion),
      v ∈ (j.updateVersions (fun w => q w && w.publishedAt.isNone) f).versions := by
    intro q f
    refine mem_updateVersions.2 ⟨v, hv, if_neg fun hguard => hpublished ?_⟩
    simpa using (Bool.and_eq_true_iff.1 hguard).2
  cases hc with
  | kept _ => exact hv
  | edited spec =>
    unfold Journey.writeDraft
    split
    · exact List.mem_append_left _ hv
    · split
      · exact hupdate _ _
      · exact List.mem_append_left _ hv
  | requested _ => exact hupdate _ _
  | published _ _ => exact hupdate _ _
  | moved status => exact hv

/-- **The hash of every version is the hash of its spec**, as the spec is read back. -/
theorem JourneyChange.hashes (hc : JourneyChange P org call j events j')
    (h : ∀ v ∈ j.versions, v.specHash = hashSpec P.sha256Hex v.spec.1) :
    ∀ v ∈ j'.versions, v.specHash = hashSpec P.sha256Hex v.spec.1 := by
  have hupdate : ∀ (p : JourneyVersion → Bool) (f : JourneyVersion → JourneyVersion),
      (∀ v, (f v).specHash = hashSpec P.sha256Hex (f v).spec.1 ∨
        (f v).specHash = v.specHash ∧ (f v).spec = v.spec) →
      ∀ v ∈ (j.updateVersions p f).versions, v.specHash = hashSpec P.sha256Hex v.spec.1 := by
    intro p f hf v' hv'
    obtain ⟨v, hv, rfl⟩ := mem_updateVersions.1 hv'
    split
    · rcases hf v with hnew | ⟨hhash, hspec⟩
      · exact hnew
      · rw [hhash, hspec]
        exact h v hv
    · exact h v hv
  have happend : ∀ w : JourneyVersion, w.specHash = hashSpec P.sha256Hex w.spec.1 →
      ∀ v ∈ j.versions ++ [w], v.specHash = hashSpec P.sha256Hex v.spec.1 := by
    intro w hw v hv
    rcases List.mem_append.1 hv with hv | hv
    · exact h v hv
    · rw [List.mem_singleton.1 hv]
      exact hw
  cases hc with
  | kept _ | moved _ => exact h
  | edited spec =>
    unfold Journey.writeDraft
    split
    · exact happend _ (newVersion_specHash _ _ _)
    · split
      · exact hupdate _ _ fun v => .inl (hashSpec_jsonb P.sha256Hex spec.2).symm
      · exact happend _ (newVersion_specHash _ _ _)
  | requested _ | published _ _ => exact hupdate _ _ fun v => .inr ⟨rfl, rfl⟩

end Ordered

/-! ### Every run -/

/-- The order of an organisation's journeys: distinct ids, versions in order, and the hash of each
version that of its spec. -/
structure Org.Consistent (P : Platform) (org : Org) : Prop where
  ids : (org.journeys.map (·.id)).Nodup
  ordered : ∀ j ∈ org.journeys, j.Ordered
  hashes : ∀ j ∈ org.journeys, ∀ v ∈ j.versions, v.specHash = hashSpec P.sha256Hex v.spec.1

section Runs

variable {P : Platform} {org : Org}

/-- A new journey has one version, a draft. -/
theorem ordered_create (id : String) (spec : Option RawSpec) :
    (Journey.create P id spec).Ordered := by
  refine ⟨List.pairwise_singleton _ _, fun v hv _ w hw => ?_, by simp [Journey.create]⟩
  rw [List.mem_singleton.1 hv, List.mem_singleton.1 hw]

/-- **One call keeps the journeys consistent.** -/
theorem Org.Consistent.call (h : org.Consistent P) (call : JourneyCall) :
    (org.call P call).Consistent P := by
  obtain ⟨events, -, -, hjourneys⟩ := changes_of_call (P := P) h.ids call
  refine ⟨call_ids_nodup h.ids call, fun j' hj' => ?_, fun j' hj' => ?_⟩
  · rcases hjourneys j' hj' with ⟨-, id, spec, rfl, -⟩ | ⟨j, hj, hc⟩
    · exact ordered_create id spec
    · exact hc.ordered (load_of_mem h.ids hj) (h.ordered j hj)
  · rcases hjourneys j' hj' with ⟨-, id, spec, rfl, -⟩ | ⟨j, hj, hc⟩
    · intro v hv
      rw [List.mem_singleton.1 hv]
      exact newVersion_specHash _ _ _
    · exact hc.hashes (h.hashes j hj)

/-- The journeys of every reachable organisation are consistent. -/
theorem consistent_of_reachable (h : (orgMachine P).Reachable (· = {}) org) :
    org.Consistent P := by
  refine h.invariant (fun s hs => ?_) fun s t call _ hconsistent _ hstep => ?_
  · subst hs
    exact ⟨List.nodup_nil, by simp, by simp⟩
  · obtain rfl : s.call P call = t := Option.some.inj hstep
    exact hconsistent.call call

end Runs

end Munin
