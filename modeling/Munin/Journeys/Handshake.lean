import Munin.Journeys.VersionCalls

/-!
# When a confirmation follows its request

A request stores the hashes of the templates that its emails use in a `jsonb` column, keyed by the
ids of the nodes; the confirmation takes the hashes again and compares the two objects by their
texts. The text of an object depends on the order of its keys. The fresh object has them in the
order of the nodes, the stored one in `jsonb`'s own order. So a confirmation that follows its
request, with nothing changed in between, goes through only if the two orders agree.

* **`autoTemplateHashes_keys`** — the fresh object has the ids of the emails for keys, in order.
* **`handshake_succeeds_iff`** — exactly when the confirmation goes through. It also has to know the
  time zone in which a recurring segment is entered next, which nothing has checked by then.
-/

namespace Munin

open Foundations

/-! ### The keys of the pinned hashes -/

/-- A new field goes to the end. -/
theorem setField_of_notMem {α : Type*} {fields : List (String × α)} {key : String} (value : α)
    (h : key ∉ fields.map (·.1)) : setField fields key value = fields ++ [(key, value)] := by
  have hnone : fields.any (·.1 = key) = false := by
    rw [Bool.eq_false_iff]
    intro hany
    obtain ⟨f, hf, hkey⟩ := List.any_eq_true.1 hany
    exact h (List.mem_map.2 ⟨f, hf, of_decide_eq_true hkey⟩)
  rw [setField, hnone]
  rfl

section Pinned

variable {P : Platform} {templates : EmailTemplates} {spec : JourneySpec}
  {pinned : List (String × String)}

/-- The hashes of emails with distinct ids are kept in the order of the emails. -/
theorem keys_of_foldlM {emails : List MessageNode} (before : List (String × String))
    {after : List (String × String)} (hnodup : (before.map (·.1) ++ emails.map (·.id)).Nodup)
    (h : emails.foldlM (fun pinned n => do
      let hash ← orThrow (emailTemplateHash P templates n.content.templateId) (templateMissing n)
      pure (setField pinned n.id hash)) before = .ok after) :
    after.map (·.1) = before.map (·.1) ++ emails.map (·.id) := by
  induction emails generalizing before with
  | nil =>
    obtain rfl : before = after := Except.ok.inj h
    rw [List.map_nil, List.append_nil]
  | cons n ns ih =>
    rw [List.foldlM_cons, bind_eq_ok] at h
    obtain ⟨next, hnext, hrest⟩ := h
    obtain ⟨hash, -, hset⟩ := bind_eq_ok.1 hnext
    obtain rfl : setField before n.id hash = next := Except.ok.inj hset
    have hfresh : n.id ∉ before.map (·.1) := fun hmem =>
      (List.nodup_append.1 hnodup).2.2 _ hmem _ List.mem_cons_self rfl
    have hkeys : (setField before n.id hash).map (·.1) = before.map (·.1) ++ [n.id] := by
      rw [setField_of_notMem hash hfresh, List.map_append]
      rfl
    have hshift : before.map (·.1) ++ (n :: ns).map (·.id) =
        (setField before n.id hash).map (·.1) ++ ns.map (·.id) := by
      rw [hkeys, List.map_cons, List.append_assoc]
      rfl
    rw [hshift] at hnodup ⊢
    exact ih _ hnodup hrest

/-- The ids of the messages are among those of the nodes, in order. -/
theorem messages_ids_sublist (spec : JourneySpec) :
    (spec.messages.map (·.id)).Sublist (spec.nodes.map (·.id)) := by
  unfold JourneySpec.messages
  induction spec.nodes with
  | nil => exact .slnil
  | cons node nodes ih =>
    cases node with
    | message n => exact ih.cons_cons n.id
    | action _ | wait _ | waitFor _ | branch _ | split _ | goal _ | jump _ | exit _ | agent _
    | approval _ | subJourney _ => exact ih.cons _

/-- **The hashes are keyed by the ids of the emails, in the order of the spec.** -/
theorem autoTemplateHashes_keys (hids : (spec.nodes.map (·.id)).Nodup)
    (h : autoTemplateHashes P templates spec = .ok pinned) :
    pinned.map (·.1) = (autoEmails spec).map (·.id) := by
  have hsublist : ((autoEmails spec).map (·.id)).Sublist (spec.nodes.map (·.id)) :=
    (List.filter_sublist.map _).trans (messages_ids_sublist spec)
  exact keys_of_foldlM [] (hids.sublist hsublist) h

end Pinned

theorem exists_ok {α : Type} {x : Except JourneyError α} (h : x.isOk = true) : ∃ a, x = .ok a := by
  cases x with
  | error e => cases h
  | ok a => exact ⟨a, rfl⟩

/-! ### Comparing texts -/

/-- Objects of texts are compared field by field. -/
theorem stringRecord_stringify_inj {fields fields' : List (String × String)} :
    (stringRecord fields).stringify = (stringRecord fields').stringify ↔ fields = fields' := by
  constructor
  · intro h
    have hfields := Json.obj.inj (Json.stringify_injective h)
    refine List.map_injective_iff.2 (fun a b hab => ?_) hfields
    simp only [Prod.mk.injEq, Json.str.injEq] at hab
    exact Prod.ext hab.1 hab.2
  · rintro rfl
    rfl

/-- A digest's first digits are not empty. -/
theorem truthy_publishFingerprint (P : Platform) (id : String) (number : Nat) (hash : String)
    (autoNodes : List NodeId) (templates : List (String × String)) :
    truthy (some (publishFingerprint P id number hash autoNodes templates)) = true := by
  have hlength := P.sha256Hex_length (publishCanonical P id number hash autoNodes templates)
  simp only [truthy, publishFingerprint, bne_iff_ne]
  intro hempty
  have htaken := congrArg (fun s => s.toList.length) hempty
  simp [jsTake, hlength] at htaken

/-! ### The handshake -/

/-- The emails that send without review have their ids in the order of `jsonb`. -/
def EmailsInJsonbOrder (spec : JourneySpec) : Prop :=
  (autoEmails spec).Pairwise fun a b => jsonbRank a.id ≤ jsonbRank b.id

instance (spec : JourneySpec) : Decidable (EmailsInJsonbOrder spec) :=
  inferInstanceAs (Decidable (List.Pairwise _ (autoEmails spec)))

section Handshake

variable {P : Platform} {org org' : Org} {id : String} {number : Option Nat} {env : RequestEnv}
  {r : PublishRequest} {j : Journey} {draft : JourneyVersion} {spec : JourneySpec} {actor : Actor}

/-- Storing the hashes of a valid spec keeps their text exactly if its emails are in order. -/
theorem stored_text_iff {templates : EmailTemplates} {pinned : List (String × String)}
    (hids : (spec.nodes.map (·.id)).Nodup)
    (hpinned : autoTemplateHashes P templates spec = .ok pinned) :
    (stringRecord pinned).stringify = (stringRecord (sortFields jsonbRank pinned)).stringify ↔
      EmailsInJsonbOrder spec := by
  have hkeys := autoTemplateHashes_keys hids hpinned
  have hpairs : (pinned.Pairwise fun a b => jsonbRank a.1 ≤ jsonbRank b.1) ↔
      (pinned.map (·.1)).Pairwise fun a b => jsonbRank a ≤ jsonbRank b := by
    rw [List.pairwise_map]
  have hemails : (((autoEmails spec).map (·.id)).Pairwise fun a b => jsonbRank a ≤ jsonbRank b) ↔
      EmailsInJsonbOrder spec := by
    rw [List.pairwise_map, EmailsInJsonbOrder]
  rw [stringRecord_stringify_inj, eq_comm, sortFields_eq_self_iff, hpairs, hkeys, hemails]

/-- What a request leaves: its journey with the request's fingerprint and hashes on the draft. -/
theorem load_of_request (hload : org.load id = .ok j)
    (hrequest : requestPublish P org id number env = .ok r) :
    (org.call P (.requestPublish id number env)).load id = .ok (j.writeRequest r) := by
  rw [Org.call, hrequest]
  exact load_update_self (fun _ => rfl) hload

section Confirms

variable (hconsistent : org.Consistent P)
    (hrequest : requestPublish P org id number env = .ok r) (hload : org.load id = .ok j)
    (hdraft : j.requestedVersion number = .ok draft) (hspec : P.parseSpec draft.spec = some spec)
    (hsame : org'.load id = .ok (j.writeRequest r)) (hactor : actor.type = .user)

include hconsistent hrequest hload hdraft hspec hsame hactor

/-- What a confirmation that follows its request comes down to: only the texts of the hashes and the
time zone are left to check. -/
theorem confirm_after_request :
    (spec.nodes.map (·.id)).Nodup ∧ autoTemplateHashes P env.templates spec = .ok r.templates ∧
      confirmPublish P org' id r.number r.fingerprint actor env.templates = (do
        require ((stringRecord r.templates).stringify =
          (stringRecord (sortFields jsonbRank r.templates)).stringify) templateChanged
        require (spec.entryTimezone.all P.isValidTimezone) (.thrown "RangeError")
        pure (draft.request r)) := by
  obtain ⟨k, hk, harchived, draft', hdraft', hunpublished, hvalid, spec', hspec', -, -, pinned,
    hpinned, rfl⟩ := requestPublish_eq_ok.1 hrequest
  obtain rfl : j = k := Except.ok.inj (hload.symm.trans hk)
  obtain rfl : draft = draft' := Except.ok.inj (hdraft.symm.trans hdraft')
  obtain rfl : spec = spec' := Option.some.inj (hspec.symm.trans hspec')
  have hids : (spec.nodes.map (·.id)).Nodup := by
    rw [validateSpec, hspec] at hvalid
    exact nodup_ids_of_valid hvalid
  obtain ⟨hj, rfl⟩ := mem_of_load hload
  have hmem := mem_of_requestedVersion hdraft
  have hfingerprint :=
    truthy_publishFingerprint P j.id draft.number draft.specHash (autoNodes spec) pinned
  have hhash : draft.specHash = hashSpec P.sha256Hex draft.spec.1 :=
    hconsistent.hashes j hj draft hmem
  generalize publishFingerprint P j.id draft.number draft.specHash (autoNodes spec) pinned =
    fingerprint at hsame hfingerprint ⊢
  -- the draft's row, as the confirmation reads it back
  generalize hr : (⟨draft.number, draft.specHash, autoNodes spec, pinned, fingerprint⟩ :
    PublishRequest) = r at hsame ⊢
  have hrow : (j.writeRequest r).versionRow draft.number = some (draft.request r) := by
    have hwritten : (j.writeRequest r).Ordered :=
      (hconsistent.ordered j hj).updateVersions (fun _ => rfl) fun _ h => h
    have hrowmem : draft.request r ∈ (j.writeRequest r).versions := by
      refine mem_updateVersions.2 ⟨draft, hmem, if_pos ?_⟩
      simp [← hr, hunpublished]
    exact versionRow_of_mem hwritten.numbers hrowmem
  have hopen : (j.writeRequest r).status ≠ .archived := harchived
  have hdraftrow : (draft.request r).publishedAt = none := hunpublished
  have hspecrow : P.parseSpec (draft.request r).spec = some spec := hspec
  subst hr
  refine ⟨hids, hpinned, ?_⟩
  rw [confirmPublish, require_pos hactor, ok_bind, hsame, ok_bind, require_pos hopen, ok_bind, hrow,
    orThrow_eq_ok.2 rfl, ok_bind, require_pos hdraftrow, ok_bind,
    require_pos ⟨hfingerprint, rfl, hhash⟩, ok_bind, hspecrow, orThrow_eq_ok.2 rfl, ok_bind,
    hpinned, ok_bind]
  rfl

/-- A confirmation that goes through publishes the draft with the request's fingerprint. -/
theorem confirm_after_request_ok (horder : EmailsInJsonbOrder spec)
    (hzone : spec.entryTimezone.all P.isValidTimezone = true) :
    confirmPublish P org' id r.number r.fingerprint actor env.templates =
      .ok (draft.request r) := by
  obtain ⟨hids, hpinned, heq⟩ :=
    confirm_after_request hconsistent hrequest hload hdraft hspec hsame hactor
  rw [heq, require_pos ((stored_text_iff hids hpinned).2 horder), ok_bind, require_pos hzone,
    ok_bind]
  rfl

/-- Where the emails are out of order, the person who confirms is told that a template changed. -/
theorem confirm_after_request_conflict (horder : ¬ EmailsInJsonbOrder spec) :
    confirmPublish P org' id r.number r.fingerprint actor env.templates =
      .error templateChanged := by
  obtain ⟨hids, hpinned, heq⟩ :=
    confirm_after_request hconsistent hrequest hload hdraft hspec hsame hactor
  rw [heq, require_neg (mt (stored_text_iff hids hpinned).1 horder), error_bind]

end Confirms

/-- **A confirmation that follows its request.** Whoever requests a publication and confirms it
while the journey is as the request left it, and with the same templates, succeeds exactly if the
emails that send without review have their ids in the order of `jsonb`, and the time zone of the
next entry is one that exists. -/
theorem handshake_succeeds_iff (h : (orgMachine P).Reachable (· = {}) org)
    (hrequest : requestPublish P org id number env = .ok r) (hload : org.load id = .ok j)
    (hdraft : j.requestedVersion number = .ok draft) (hspec : P.parseSpec draft.spec = some spec)
    (hsame : org'.load id = (org.call P (.requestPublish id number env)).load id)
    (hactor : actor.type = .user) :
    (∃ row, confirmPublish P org' id r.number r.fingerprint actor env.templates = .ok row) ↔
      EmailsInJsonbOrder spec ∧ spec.entryTimezone.all P.isValidTimezone = true := by
  have hconsistent := consistent_of_reachable h
  rw [load_of_request hload hrequest] at hsame
  constructor
  · rintro ⟨row, hok⟩
    obtain ⟨hids, hpinned, heq⟩ :=
      confirm_after_request hconsistent hrequest hload hdraft hspec hsame hactor
    simp only [heq, bind_eq_ok, require_eq_ok, exists_const] at hok
    exact ⟨(stored_text_iff hids hpinned).1 hok.1, hok.2.1⟩
  · rintro ⟨horder, hzone⟩
    exact ⟨_, confirm_after_request_ok hconsistent hrequest hload hdraft hspec hsame hactor horder
      hzone⟩

end Handshake

/-! ### Samples -/

/-- An organisation with one journey, a draft with this spec. -/
def draftOrg (spec : RawSpec) : Org :=
  Org.call samplePlatform {} (.create "j1" (some spec))

theorem reachable_draftOrg (spec : RawSpec) :
    (orgMachine samplePlatform).Reachable (· = {}) (draftOrg spec) :=
  .step (.start rfl) trivial rfl

/-- The person who confirms. -/
def samplePerson : Actor := ⟨.user, "usr_1"⟩

/-- A journey with one email: its publication goes through. -/
theorem handshake_succeeds_iff_sample :
    ∃ r row, requestPublish samplePlatform (draftOrg oneEmail) "j1" none sampleEnv = .ok r ∧
      confirmPublish samplePlatform
        ((draftOrg oneEmail).call samplePlatform (.requestPublish "j1" none sampleEnv)) "j1"
        r.number r.fingerprint samplePerson sampleEnv.templates = .ok row := by
  obtain ⟨r, hr⟩ := exists_ok
    (x := requestPublish samplePlatform (draftOrg oneEmail) "j1" none sampleEnv) (by decide)
  have hperson : samplePerson.type = .user := rfl
  obtain ⟨row, hrow⟩ := (handshake_succeeds_iff (reachable_draftOrg oneEmail) hr rfl rfl rfl rfl
    hperson).2 (by decide)
  exact ⟨r, row, hr, hrow⟩

/-- A spec with two emails, whose ids are in the order of the spec and not in that of `jsonb`. -/
def twoEmails : RawSpec where
  val := sampleSpec "welcome"
    [sampleEmail "welcome" "nudge", sampleEmail "nudge" "done", sampleExit]
  property := by
    simp [sampleSpec, sampleEmail, sampleExit, Json.WellKeyed, WellKeyedItems, WellKeyedFields]

/-- **A publication of two emails is refused** though nothing changed since its request: the
stored hashes come back with the shorter key first. -/
theorem unchanged_handshake_refused :
    ∃ r, requestPublish samplePlatform (draftOrg twoEmails) "j1" none sampleEnv = .ok r ∧
      confirmPublish samplePlatform
        ((draftOrg twoEmails).call samplePlatform (.requestPublish "j1" none sampleEnv)) "j1"
        r.number r.fingerprint samplePerson sampleEnv.templates = .error templateChanged := by
  obtain ⟨r, hr⟩ := exists_ok
    (x := requestPublish samplePlatform (draftOrg twoEmails) "j1" none sampleEnv) (by decide)
  have hconsistent := consistent_of_reachable (reachable_draftOrg twoEmails)
  have hload : (draftOrg twoEmails).load "j1" =
      .ok (Journey.create samplePlatform "j1" (some twoEmails)) := rfl
  have hsame := load_of_request hload hr
  exact ⟨r, hr, confirm_after_request_conflict hconsistent hr hload rfl rfl hsame rfl (by decide)⟩

end Munin
