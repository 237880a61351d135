import Munin.Journeys.Handshake

/-!
# Journeys that call each other

A journey can start another one for the person who walks through it. Two journeys that call each
other would never end, so a request to publish a journey is refused if one of the journeys it calls
leads back to it. The check reads the versions that are live when the request is made. Nothing
checks again when the publication is confirmed, and by then other journeys can have gone live: two
requests made side by side both pass, and their confirmations close a cycle
(`calls_closed_into_cycle`).

* **`Org.LiveCalls`** — a live journey calls another one.
* **`LeadsNowhereBack`** — the check of the request, made again at the confirmation.
* **`live_calls_acyclic`** — under that check the live calls are acyclic in every run.
-/

namespace Munin

open Foundations

/-! ### Calls between journeys -/

/-- The journeys that the live version of a journey calls. -/
def Journey.liveCalls (j : Journey) : List String :=
  (j.live.map fun v => subJourneyTargets v.spec).getD []

/-- A journey with a live version calls another one, be it paused or not. -/
def Org.Calls (org : Org) (a b : String) : Prop :=
  ∃ j ∈ org.journeys, j.id = a ∧ b ∈ j.liveCalls

/-- A live journey calls another one. -/
def Org.LiveCalls (org : Org) (a b : String) : Prop :=
  ∃ j ∈ org.journeys, j.id = a ∧ j.status = .live ∧ b ∈ j.liveCalls

/-- The calls of the version of a journey with this number. -/
def Org.callsOf (org : Org) (id : String) (number : Nat) : List String :=
  ((org.journeys.find? (·.id = id)).bind (·.versionRow number)).elim [] fun v =>
    subJourneyTargets v.spec

/-- None of the journeys that a confirmed version calls leads back to its journey, as the versions
are that are live at the confirmation. -/
def LeadsNowhereBack (org : Org) : JourneyCall → Prop
  | .confirmPublish id number .. =>
    ∀ t ∈ org.callsOf id number, ¬ (callGraph org.journeyRefs).Path t id
  | .create .. | .editDraft .. | .requestPublish .. | .transition .. => True

/-! ### The graph that a request reads -/

section Graph

variable {P : Platform} {org : Org}

variable {b id : String} {j : Journey} {row : JourneyVersion} {actor : Actor}

/-- The graph that a request reads has the calls of the live versions for edges. -/
theorem edge_iff_calls (hids : (org.journeys.map (·.id)).Nodup) {a : String} :
    (callGraph org.journeyRefs).Edge a b ↔ org.Calls a b := by
  have hlookup : ∀ js : List Journey,
      List.lookup a (callGraph (Org.journeyRefs { journeys := js })) =
        (js.find? (·.id = a)).map (·.liveCalls) := by
    intro js
    induction js with
    | nil => rfl
    | cons j js ih =>
      rw [Org.journeyRefs, List.map_cons, callGraph, List.map_cons, List.lookup_cons]
      by_cases hid : j.id = a
      · simp [hid, Journey.liveCalls]
      · rw [List.find?_cons_of_neg (by simpa using hid)]
        simp only [beq_eq_false_iff_ne.2 (Ne.symm hid)]
        exact ih
  rw [SuccGraph.Edge, SuccGraph.succ]
  have hgraph : List.lookup a (callGraph org.journeyRefs) =
      (org.journeys.find? (·.id = a)).map (·.liveCalls) := hlookup org.journeys
  rw [hgraph]
  constructor
  · intro hb
    cases hfind : org.journeys.find? (·.id = a) with
    | none => simp [hfind] at hb
    | some j =>
      rw [hfind] at hb
      exact ⟨j, List.mem_of_find?_eq_some hfind, by simpa using List.find?_some hfind, hb⟩
  · rintro ⟨j, hj, rfl, hb⟩
    have hload := load_of_mem hids hj
    rw [Org.load, orThrow_eq_ok] at hload
    rw [hload]
    exact hb

/-- A journey that is changed without a confirmation calls what it called. -/
theorem liveCalls_eq {j' : Journey} (h : j.Ordered) (h' : j'.Ordered)
    (hversion : j'.liveVersion = j.liveVersion)
    (hpublished : ∀ v ∈ j.versions, v.publishedAt ≠ none → v ∈ j'.versions) :
    j'.liveCalls = j.liveCalls := by
  have hlive : j'.live = j.live := by
    rw [Journey.live, Journey.live, hversion]
    cases hn : j.liveVersion with
    | none => rfl
    | some n =>
      obtain ⟨v, hv, rfl, hne⟩ := h.live n hn
      have hrow := versionRow_of_mem h.numbers hv
      have hrow' := versionRow_of_mem h'.numbers (hpublished v hv hne)
      rw [Option.bind_some, Option.bind_some, hrow, hrow']
  rw [Journey.liveCalls, Journey.liveCalls, hlive]

/-- Editing leaves the live version. -/
theorem Journey.writeDraft_liveVersion (j : Journey) (spec : RawSpec) :
    (j.writeDraft P spec).liveVersion = j.liveVersion := by
  unfold Journey.writeDraft
  split
  · rfl
  · split <;> rfl

/-- A confirmation lets the journey call what the confirmed version calls. -/
theorem liveCalls_publish {now : Instant} (h : j.Ordered) (hrow : row ∈ j.versions) :
    (j.publish row actor now).liveCalls = subJourneyTargets row.spec := by
  obtain ⟨v, hv, hspec, hnumber⟩ : ∃ v ∈ (j.publish row actor now).versions,
      v.spec = row.spec ∧ v.number = row.number := by
    refine ⟨_, mem_updateVersions.2 ⟨row, hrow, rfl⟩, ?_, ?_⟩
    · split <;> rfl
    · split <;> rfl
  have hlive : (j.publish row actor now).live = some v := by
    rw [Journey.live]
    change (j.publish row actor now).versionRow row.number = some v
    rw [← hnumber]
    exact versionRow_of_mem (h.publish hrow).numbers hv
  rw [Journey.liveCalls, hlive, Option.map_some, Option.getD_some, hspec]

/-- What the version calls that a confirmation is about. -/
theorem callsOf_of_confirm {number : Nat} {fingerprint : String} {templates : EmailTemplates}
    (hok : confirmPublish P org id number fingerprint actor templates = .ok row) :
    org.callsOf id number = subJourneyTargets row.spec := by
  obtain ⟨-, j, hload, -, hrow, -⟩ := confirmPublish_eq_ok.1 hok
  rw [Org.load, orThrow_eq_ok] at hload
  simp only [Org.callsOf, hload, Option.bind_some, hrow, Option.elim_some]

/-- A journey whose confirmation goes through calls what the confirmed version calls, and it is live
unless it is paused. -/
theorem liveCalls_of_confirm (hconsistent : org.Consistent P)
    {number : Nat} {fingerprint : String} {templates : EmailTemplates}
    {now : Instant} (hload : org.load id = .ok j)
    (hok : confirmPublish P org id number fingerprint actor templates = .ok row)
    (hpaused : j.status ≠ .paused) (hb : b ∈ subJourneyTargets row.spec) :
    (j.publish row actor now).status = .live ∧ b ∈ (j.publish row actor now).liveCalls := by
  obtain ⟨-, k, hk, -, hrow, -⟩ := confirmPublish_eq_ok.1 hok
  obtain rfl : j = k := Except.ok.inj (hload.symm.trans hk)
  have hordered := hconsistent.ordered j (mem_of_load hload).1
  rw [liveCalls_publish hordered (mem_of_versionRow hrow).1]
  exact ⟨if_neg hpaused, hb⟩

/-- **What a call does to the calls between journeys.** Only a confirmation adds any: those of the
version that it publishes. -/
theorem calls_of_call (hconsistent : org.Consistent P) {call : JourneyCall} {a : String}
    (h : (org.call P call).Calls a b) :
    org.Calls a b ∨ ∃ number fingerprint actor templates now,
      call = .confirmPublish a number fingerprint actor templates now ∧
        b ∈ org.callsOf a number := by
  obtain ⟨j', hj', rfl, hb⟩ := h
  obtain ⟨events, -, -, hjourneys⟩ := changes_of_call (P := P) hconsistent.ids call
  rcases hjourneys j' hj' with ⟨-, id, spec, rfl, -⟩ | ⟨j, hj, hc⟩
  · cases hb
  · have hload := load_of_mem hconsistent.ids hj
    have hordered := hconsistent.ordered j hj
    have hkept : j'.liveVersion = j.liveVersion → org.Calls j'.id b := fun hversion => by
      have hsame := liveCalls_eq hordered (hc.ordered hload hordered) hversion fun v =>
        hc.published_mem
      exact ⟨j, hj, hc.id_eq.symm, hsame ▸ hb⟩
    cases hc with
    | kept _ | requested _ | moved _ => exact .inl (hkept rfl)
    | edited spec => exact .inl (hkept (j.writeDraft_liveVersion spec))
    | published hcall hok =>
      obtain ⟨-, k, hk, -, hrow, -⟩ := confirmPublish_eq_ok.1 hok
      obtain rfl : j = k := Except.ok.inj (hload.symm.trans hk)
      rw [liveCalls_publish hordered (mem_of_versionRow hrow).1] at hb
      exact .inr ⟨_, _, _, _, _, hcall, callsOf_of_confirm hok ▸ hb⟩

/-- **The calls between journeys stay acyclic** in runs whose confirmations lead nowhere back. -/
theorem calls_acyclic (h : (orgMachine P).Reaches (· = {}) LeadsNowhereBack org) :
    Acyclic org.Calls := by
  refine (h.invariant (I := fun org => org.Consistent P ∧ Acyclic org.Calls) (fun s hs => ?_)
    fun s t call _ hinv hguard hstep => ?_).2
  · subst hs
    refine ⟨consistent_of_reachable (.start rfl), fun a hcycle => ?_⟩
    obtain ⟨b, ⟨j, hj, -⟩, -⟩ := Relation.TransGen.head'_iff.1 hcycle
    cases hj
  · obtain ⟨hconsistent, hacyclic⟩ := hinv
    obtain rfl : s.call P call = t := Option.some.inj hstep
    refine ⟨hconsistent.call call, ?_⟩
    by_cases hconfirm : ∃ id number fingerprint actor templates now,
        call = .confirmPublish id number fingerprint actor templates now
    · obtain ⟨id, number, fingerprint, actor, templates, now, rfl⟩ := hconfirm
      refine acyclic_of_extend (v := id) (· ∈ s.callsOf id number) (fun a b hab => ?_) hacyclic
        fun t ht hpath => hguard t ht ?_
      · rcases calls_of_call hconsistent hab with hold | ⟨_, _, _, _, _, hcall, hb⟩
        · exact .inl hold
        · cases hcall
          exact .inr ⟨rfl, hb⟩
      · exact Relation.ReflTransGen.mono (fun a b => (edge_iff_calls hconsistent.ids).2) _ _ hpath
    · refine hacyclic.mono fun a b hab => ?_
      rcases calls_of_call hconsistent hab with hold | ⟨number, fp, actor, templates, now, hcall, -⟩
      · exact hold
      · exact absurd ⟨a, number, fp, actor, templates, now, hcall⟩ hconfirm

/-- **Live journeys do not call each other in circles**, in every run whose confirmations lead
nowhere back. -/
theorem live_calls_acyclic (h : (orgMachine P).Reaches (· = {}) LeadsNowhereBack org) :
    Acyclic org.LiveCalls :=
  (calls_acyclic h).mono fun _ _ ⟨j, hj, hid, _, hb⟩ => ⟨j, hj, hid, hb⟩

end Graph

/-! ### Samples -/

section Samples

variable {P : Platform} {org : Org} {id id' : String} {j : Journey} {number : Nat}
  {fingerprint : String} {actor : Actor} {templates : EmailTemplates} {now : Instant}
  {row : JourneyVersion}

/-- A request leaves the other journeys. -/
theorem load_request_of_ne {number : Option Nat} {env : RequestEnv} (hne : id ≠ id')
    (hload : org.load id = .ok j) :
    (org.call P (.requestPublish id' number env)).load id = .ok j := by
  rw [Org.call]
  split
  · rename_i request _
    exact (load_update_of_ne (f := (·.writeRequest request)) (fun _ => rfl) hne).trans hload
  · exact hload

/-- A confirmation leaves the other journeys. -/
theorem load_confirm_of_ne (hne : id ≠ id') (hload : org.load id = .ok j) :
    (org.call P (.confirmPublish id' number fingerprint actor templates now)).load id = .ok j := by
  rw [Org.call]
  split
  · rename_i row _
    exact (load_update_of_ne (f := (·.publish row actor now)) (fun _ => rfl) hne).trans hload
  · exact hload

/-- A confirmation that goes through publishes its journey. -/
theorem load_of_confirm (hload : org.load id = .ok j)
    (hok : confirmPublish P org id number fingerprint actor templates = .ok row) :
    (org.call P (.confirmPublish id number fingerprint actor templates now)).load id =
      .ok (j.publish row actor now) := by
  rw [Org.call, hok]
  exact load_update_self (fun _ => rfl) hload

/-- What a live journey calls. -/
theorem liveCalls_of_load {b : String} (h : org.load id = .ok j)
    (hcalls : j.status = .live ∧ b ∈ j.liveCalls) : org.LiveCalls id b := by
  obtain ⟨hj, hid⟩ := mem_of_load h
  exact ⟨j, hj, hid, hcalls⟩

end Samples

/-- A spec that calls another journey. -/
def callingSpec (journeyId : String) : RawSpec where
  val := sampleSpec "call"
    [.obj [("id", .str "call"), ("type", .str "sub_journey"), ("journeyId", .str journeyId),
      ("next", .str "done")], sampleExit]
  property := by simp [sampleSpec, sampleExit, Json.WellKeyed, WellKeyedItems, WellKeyedFields]

/-- Two journeys that call each other, still drafts. -/
def twoDrafts : Org :=
  (Org.call samplePlatform {} (.create "a" (some (callingSpec "b")))).call samplePlatform
    (.create "b" (some (callingSpec "a")))

theorem reaches_twoDrafts :
    (orgMachine samplePlatform).Reaches (· = {}) LeadsNowhereBack twoDrafts :=
  .step (a := .create "b" (some (callingSpec "a")))
    (.step (a := .create "a" (some (callingSpec "b"))) (.start rfl) trivial rfl) trivial rfl

/-- Such a journey, with its publication requested. -/
def requestedJourney (id journeyId : String) (r : PublishRequest) : Journey :=
  (Journey.create samplePlatform id (some (callingSpec journeyId))).writeRequest r

/-- The draft that a request was for. -/
def requestedDraft (journeyId : String) (r : PublishRequest) : JourneyVersion :=
  (newVersion samplePlatform 1 (callingSpec journeyId) none).request r

/-- The journey after the confirmation. -/
def publishedJourney (id journeyId : String) (r : PublishRequest) : Journey :=
  (requestedJourney id journeyId r).publish (requestedDraft journeyId r) samplePerson 0

/-- One of the two is published alone. -/
theorem live_calls_acyclic_sample :
    ∃ org, (orgMachine samplePlatform).Reaches (· = {}) LeadsNowhereBack org ∧
      org.LiveCalls "a" "b" ∧ Acyclic org.LiveCalls := by
  obtain ⟨r, hr⟩ := exists_ok
    (x := requestPublish samplePlatform twoDrafts "a" none sampleEnv) (by decide)
  have hreach : (orgMachine samplePlatform).Reaches (· = {}) LeadsNowhereBack
      (twoDrafts.call samplePlatform (.requestPublish "a" none sampleEnv)) :=
    .step (a := .requestPublish "a" none sampleEnv) reaches_twoDrafts trivial rfl
  have hconsistent := consistent_of_reachable (reaches_twoDrafts.mono fun _ _ _ => trivial)
  have hconsistent' := consistent_of_reachable (hreach.mono fun _ _ _ => trivial)
  have hsame : (twoDrafts.call samplePlatform (.requestPublish "a" none sampleEnv)).load "a" =
      .ok (requestedJourney "a" "b" r) := load_of_request rfl hr
  have hok : confirmPublish samplePlatform
      (twoDrafts.call samplePlatform (.requestPublish "a" none sampleEnv)) "a" r.number
      r.fingerprint samplePerson sampleEnv.templates = .ok (requestedDraft "b" r) :=
    confirm_after_request_ok hconsistent hr rfl rfl rfl hsame rfl (by decide) (by decide)
  -- nothing is live yet, so that nothing leads anywhere
  have hnocalls : ∀ x y, ¬ (twoDrafts.call samplePlatform
      (.requestPublish "a" none sampleEnv)).Calls x y := by
    intro x y hcalls
    rcases calls_of_call hconsistent hcalls with ⟨j, hj, -, hy⟩ | ⟨_, _, _, _, _, hcall, -⟩
    · have hnone : ∀ k ∈ twoDrafts.journeys, k.liveCalls = [] := by decide
      rw [hnone j hj] at hy
      cases hy
    · cases hcall
  generalize twoDrafts.call samplePlatform (.requestPublish "a" none sampleEnv) = org
    at hreach hconsistent' hsame hok hnocalls
  have hcallsOf : org.callsOf "a" r.number = ["b"] := callsOf_of_confirm hok
  have hguard : LeadsNowhereBack org (.confirmPublish "a" r.number r.fingerprint samplePerson
      sampleEnv.templates 0) := by
    intro t ht hpath
    rw [hcallsOf, List.mem_singleton] at ht
    subst ht
    rcases hpath.cases_head with heq | ⟨c, hedge, -⟩
    · exact absurd heq (by decide)
    · exact hnocalls _ _ ((edge_iff_calls hconsistent'.ids).1 hedge)
  have hreach' := hreach.step hguard rfl
  exact ⟨_, hreach', liveCalls_of_load (load_of_confirm hsame hok)
    (liveCalls_of_confirm hconsistent' hsame hok nofun (List.mem_singleton_self _)),
    live_calls_acyclic hreach'⟩

/-- **Two confirmations close a cycle.** Each journey's request was made before the other journey
went live, so that both passed the check. -/
theorem calls_closed_into_cycle :
    ∃ org, (orgMachine samplePlatform).Reachable (· = {}) org ∧
      org.LiveCalls "a" "b" ∧ org.LiveCalls "b" "a" := by
  let org₁ := twoDrafts.call samplePlatform (.requestPublish "a" none sampleEnv)
  obtain ⟨r, hr⟩ := exists_ok
    (x := requestPublish samplePlatform twoDrafts "a" none sampleEnv) (by decide)
  obtain ⟨r', hr'⟩ := exists_ok
    (x := requestPublish samplePlatform org₁ "b" none sampleEnv) (by decide)
  have hreach₀ : (orgMachine samplePlatform).Reachable (· = {}) twoDrafts :=
    reaches_twoDrafts.mono fun _ _ _ => trivial
  have hreach₁ : (orgMachine samplePlatform).Reachable (· = {}) org₁ :=
    .step (a := .requestPublish "a" none sampleEnv) hreach₀ trivial rfl
  have hb₁ : org₁.load "b" = .ok (Journey.create samplePlatform "b" (some (callingSpec "a"))) :=
    load_request_of_ne (by decide) rfl
  have ha₁ : org₁.load "a" = .ok (requestedJourney "a" "b" r) := load_of_request rfl hr
  -- both requests have been made
  let org₂ := org₁.call samplePlatform (.requestPublish "b" none sampleEnv)
  have hreach₂ : (orgMachine samplePlatform).Reachable (· = {}) org₂ :=
    .step (a := .requestPublish "b" none sampleEnv) hreach₁ trivial rfl
  have ha₂ : org₂.load "a" = .ok (requestedJourney "a" "b" r) :=
    load_request_of_ne (by decide) ha₁
  have hb₂ : org₂.load "b" = .ok (requestedJourney "b" "a" r') := load_of_request hb₁ hr'
  have hoka : confirmPublish samplePlatform org₂ "a" r.number r.fingerprint samplePerson
      sampleEnv.templates = .ok (requestedDraft "b" r) :=
    confirm_after_request_ok (consistent_of_reachable hreach₀) hr rfl rfl rfl ha₂ rfl (by decide)
      (by decide)
  -- the first confirmation
  let confirm (id : String) (r : PublishRequest) : JourneyCall :=
    .confirmPublish id r.number r.fingerprint samplePerson sampleEnv.templates 0
  have hreach₃ : (orgMachine samplePlatform).Reachable (· = {})
      (org₂.call samplePlatform (confirm "a" r)) :=
    .step (a := confirm "a" r) hreach₂ trivial rfl
  have ha₃ : (org₂.call samplePlatform (confirm "a" r)).load "a" =
      .ok (publishedJourney "a" "b" r) := load_of_confirm ha₂ hoka
  have hb₃ : (org₂.call samplePlatform (confirm "a" r)).load "b" =
      .ok (requestedJourney "b" "a" r') := load_confirm_of_ne (by decide) hb₂
  have hokb : confirmPublish samplePlatform (org₂.call samplePlatform (confirm "a" r)) "b" r'.number
      r'.fingerprint samplePerson sampleEnv.templates = .ok (requestedDraft "a" r') :=
    confirm_after_request_ok (consistent_of_reachable hreach₁) hr' hb₁ rfl rfl hb₃ rfl (by decide)
      (by decide)
  have hlive : (publishedJourney "a" "b" r).status = .live ∧
      "b" ∈ (publishedJourney "a" "b" r).liveCalls :=
    liveCalls_of_confirm (consistent_of_reachable hreach₂) ha₂ hoka nofun
      (List.mem_singleton_self "b")
  have hlive' : (publishedJourney "b" "a" r').status = .live ∧
      "a" ∈ (publishedJourney "b" "a" r').liveCalls :=
    liveCalls_of_confirm (consistent_of_reachable hreach₃) hb₃ hokb nofun
      (List.mem_singleton_self "a")
  exact ⟨_, .step (a := confirm "b" r') hreach₃ trivial rfl,
    liveCalls_of_load (load_confirm_of_ne (by decide) ha₃) hlive,
    liveCalls_of_load (load_of_confirm hb₃ hokb) hlive'⟩

end Munin
