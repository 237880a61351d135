import Munin.Foundations.Machine
import Munin.Journeys.Runtime.Records
import Munin.Journeys.SpecHash
import Munin.Journeys.Validator

/-!
# Journeys, their versions and their publication

A journey has numbered versions. At most the newest is a draft; a person publishes it in two calls,
a request that returns a fingerprint of what is to go live, and a confirmation of that fingerprint.
Every call that writes a journey first takes the lock of its row, so that the calls on one journey
are atomic; a request reads the other journeys once, in one statement.

* **`JourneyVersion`, `Journey`, `Org`** — the rows, with what was accepted so far.
* **`editDraft`, `requestPublish`, `confirmPublish`** — the calls; a refused call writes nothing.
* **`publishFingerprint`** — the digest of the version, its spec hash, the nodes that send without
  review, and the hashes of the email templates these use.
* **`orgMachine`** — the calls of any number of journeys, in any order.
-/

namespace Munin

open Foundations

/-! ### Checks -/

/-- How a call on a journey refuses. -/
inductive JourneyError where
  /-- `NotFoundException`. -/
  | notFound (message : String)
  /-- `ConflictException`, with a code where the code gives one. -/
  | conflict (message : String) (code : Option String := none)
  /-- `BadRequestException`. -/
  | invalid (message : String)
  /-- `ForbiddenException`. -/
  | forbidden (message : String)
  /-- Any other exception. -/
  | thrown (name : String)

/-- `if (!condition) throw error`. -/
def require (condition : Prop) [Decidable condition] (error : JourneyError) :
    Except JourneyError Unit :=
  if condition then .ok () else .error error

variable {condition : Prop} {error : JourneyError}

@[simp]
theorem require_eq_ok [Decidable condition] {u : Unit} :
    require condition error = .ok u ↔ condition := by
  unfold require
  split <;> simp [*]

theorem require_pos [Decidable condition] (h : condition) : require condition error = .ok () :=
  if_pos h

theorem require_neg [Decidable condition]
    (h : ¬ condition) : require condition error = .error error :=
  if_neg h

/-- `if (!value) throw error`. -/
def orThrow {α : Type*} (value : Option α) (error : JourneyError) : Except JourneyError α :=
  match value with
  | some a => .ok a
  | none => .error error

@[simp]
theorem orThrow_eq_ok {α : Type*} {value : Option α} {a : α} :
    orThrow value error = .ok a ↔ value = some a := by
  cases value <;> simp [orThrow]

theorem ok_bind {α β : Type} (a : α) (f : α → Except JourneyError β) :
    ((.ok a : Except JourneyError α) >>= f) = f a := rfl

theorem error_bind {α β : Type} (e : JourneyError) (f : α → Except JourneyError β) :
    ((.error e : Except JourneyError α) >>= f) = .error e := rfl

/-- A computation that goes through went through its first step. -/
@[simp]
theorem bind_eq_ok {ε α β : Type} {x : Except ε α} {f : α → Except ε β} {b : β} :
    (x >>= f) = .ok b ↔ ∃ a, x = .ok a ∧ f a = .ok b := by
  cases x with
  | error e => simp [Bind.bind, Except.bind]
  | ok a => simp [Bind.bind, Except.bind]

/-! ### The rows -/

/-- A spec as it is stored: any JSON value, its objects with distinct keys. -/
abbrev RawSpec := { value : Json // value.WellKeyed }

/-- `JourneyStatus`. -/
inductive JourneyStatus where
  | draft
  | live
  | paused
  | archived
  deriving DecidableEq

def JourneyStatus.text : JourneyStatus → String
  | .draft => "draft"
  | .live => "live"
  | .paused => "paused"
  | .archived => "archived"

/-- A row of `journey_versions`. -/
structure JourneyVersion where
  number : Nat
  /-- The spec as the `jsonb` column returns it. -/
  spec : RawSpec
  specHash : String
  parentVersion : Option Nat := none
  publishFingerprint : Option String := none
  /-- The pinned template hashes, as the `jsonb` column returns them. -/
  pinnedTemplates : List (String × String) := []
  publishedAt : Option Instant := none
  publishedByActorId : Option String := none

/-- A row of `journeys` with its versions, in the order of their numbers. -/
structure Journey where
  id : String
  status : JourneyStatus := .draft
  liveVersion : Option Nat := none
  versions : List JourneyVersion := []

/-- A call that was accepted. -/
inductive PublishEvent where
  /-- `editDraft` wrote a version. -/
  | edited (journeyId : String) (number : Nat)
  /-- `requestPublish` returned a fingerprint for what it covers. -/
  | requested (journeyId : String) (number : Nat) (fingerprint specHash : String)
      (autoNodes : List NodeId) (templates : List (String × String))
  /-- `confirmPublish` made a version live. -/
  | published (journeyId : String) (number : Nat) (fingerprint : String)

/-- The journeys of an organisation, and what was accepted so far, oldest first. -/
structure Org where
  journeys : List Journey := []
  history : List PublishEvent := []

/-- What the code takes from elsewhere: the digest, `localeCompare` read as an order, the time zones
that `Intl` knows, the schema library's reading of a spec, the check of merge fields, and the
template that emails get when the organisation has none. -/
structure Platform where
  sha256Hex : String → String
  /-- A digest has 64 hexadecimal digits. -/
  sha256Hex_length : ∀ text, (sha256Hex text).toList.length = 64
  collate : String → String → Bool
  isValidTimezone : String → Bool
  parseSpec : RawSpec → Option JourneySpec
  checkMessageMergeFields : MessageNode → Issues
  builtInEmailTemplate : String

namespace Journey

/-- `versionRow`. -/
def versionRow (j : Journey) (number : Nat) : Option JourneyVersion :=
  j.versions.find? (·.number = number)

/-- `latestVersion`. -/
def latestVersion (j : Journey) : Option JourneyVersion :=
  j.versions.getLast?

/-- The draft of `get`: the newest version that is not published. -/
def draft (j : Journey) : Option JourneyVersion :=
  j.versions.reverse.find? (·.publishedAt.isNone)

/-- The live version of `get`. -/
def live (j : Journey) : Option JourneyVersion :=
  j.liveVersion.bind j.versionRow

/-- A write to the versions that meet a condition. -/
def updateVersions (j : Journey) (p : JourneyVersion → Bool)
    (f : JourneyVersion → JourneyVersion) : Journey :=
  { j with versions := j.versions.map fun v => if p v then f v else v }

end Journey

/-- `subJourneyTargets`: the journeys that a stored spec calls. -/
def subJourneyTargets (spec : RawSpec) : List String :=
  match spec.1 with
  | .obj fields =>
    match fields.lookup "nodes" with
    | some (.arr nodes) => nodes.filterMap fun
      | .obj node =>
        match node.lookup "type", node.lookup "journeyId" with
        | some (.str type), some (.str journeyId) =>
          if type = "sub_journey" then some journeyId else none
        | _, _ => none
      | _ => none
    | _ => []
  | _ => []

namespace Org

/-- `load`. -/
def load (org : Org) (id : String) : Except JourneyError Journey :=
  orThrow (org.journeys.find? (·.id = id)) (.notFound ("journeys_not_found: journey " ++ id))

/-- A write to the journey with this id. -/
def update (org : Org) (id : String) (f : Journey → Journey) : Org :=
  { org with journeys := org.journeys.map fun j => if j.id = id then f j else j }

/-- A write to the journey with this id, and the call it belongs to. -/
def accept (org : Org) (id : String) (f : Journey → Journey) (event : PublishEvent) : Org :=
  { org.update id f with history := org.history ++ [event] }

/-- The journeys with what their live versions call, as `loadReferences` reads them. -/
def journeyRefs (org : Org) : List (String × JourneyRef) :=
  org.journeys.map fun j =>
    (j.id, ⟨j.status.text, (j.live.map fun v => subJourneyTargets v.spec).getD []⟩)

end Org

/-! ### Fingerprints -/

/-- `JSON.stringify` of an object whose values are texts. -/
def stringRecord (fields : List (String × String)) : Json :=
  .obj (fields.map fun f => (f.1, .str f.2))

/-- The email templates of an organisation. -/
structure EmailTemplates where
  /-- The templates by id, with their text. -/
  byId : List (String × String) := []
  /-- The text of the default template. -/
  default : Option String := none

/-- `emailTemplateHash`; a hash is never empty. -/
def emailTemplateHash (P : Platform) (templates : EmailTemplates) (templateId : Option String) :
    Option String :=
  let hash (mjml : String) := jsTake 32 (P.sha256Hex mjml)
  if truthy templateId then (templates.byId.lookup (templateId.getD "")).map hash
  else some (hash (templates.default.getD P.builtInEmailTemplate))

/-- The email nodes that send without review. -/
def autoEmails (spec : JourneySpec) : List MessageNode :=
  spec.messages.filter fun n => n.channel = .email && n.approval = .auto

/-- The error of `autoTemplateHashes`. -/
def templateMissing (n : MessageNode) : JourneyError :=
  .invalid ("journeys_invalid: email template " ++ n.content.templateId.getD "null" ++
    " used by \"" ++ n.id ++ "\" does not exist")

/-- `autoTemplateHashes`. -/
def autoTemplateHashes (P : Platform) (templates : EmailTemplates) (spec : JourneySpec) :
    Except JourneyError (List (String × String)) :=
  (autoEmails spec).foldlM (fun pinned n => do
    let hash ← orThrow (emailTemplateHash P templates n.content.templateId) (templateMissing n)
    pure (setField pinned n.id hash)) []

/-- `autoNodes` of `diffSpecs`. -/
def autoNodes (spec : JourneySpec) : List NodeId :=
  (spec.messages.filter (·.approval = .auto)).map (·.id)

/-- The canonical text of a publication, before hashing. -/
def publishCanonical (P : Platform) (journeyId : String) (number : Nat) (specHash : String)
    (autoNodes : List NodeId) (templates : List (String × String)) : String :=
  (Json.arr [
    .str journeyId,
    .num (.ofNat number),
    .str specHash,
    .arr ((autoNodes.insertionSort fun a b => utf16 a ≤ utf16 b).map .str),
    .arr ((templates.insertionSort fun a b => P.collate a.1 b.1 = true).map fun e =>
      .arr [.str e.1, .str e.2])]).stringify

/-- `publishFingerprint`. -/
def publishFingerprint (P : Platform) (journeyId : String) (number : Nat) (specHash : String)
    (autoNodes : List NodeId) (templates : List (String × String)) : String :=
  jsTake 32 (P.sha256Hex (publishCanonical P journeyId number specHash autoNodes templates))

/-! ### Creating and editing -/

/-- `EMPTY_SPEC`. -/
def EMPTY_SPEC : RawSpec where
  val := .obj [
    ("entry", .obj [("trigger", .obj [("type", .str "manual")])]),
    ("start", .str "done"),
    ("nodes", .arr [.obj [("id", .str "done"), ("type", .str "exit"),
      ("reason", .str "reached_end")]])]
  property := by simp [Json.WellKeyed, WellKeyedFields, WellKeyedItems]

/-- The spec as the column returns it. -/
def RawSpec.stored (spec : RawSpec) : RawSpec :=
  ⟨spec.1.jsonb, spec.2.jsonb⟩

/-- The row of `insertVersion`. -/
def newVersion (P : Platform) (number : Nat) (spec : RawSpec) (parentVersion : Option Nat) :
    JourneyVersion where
  number := number
  spec := RawSpec.stored spec
  specHash := hashSpec P.sha256Hex spec.1
  parentVersion := parentVersion

/-- A new journey, with its first version. -/
def Journey.create (P : Platform) (id : String) (spec : Option RawSpec) : Journey where
  id := id
  versions := [newVersion P 1 (spec.getD EMPTY_SPEC) none]

/-- `create`. -/
def Org.create (P : Platform) (org : Org) (id : String) (spec : Option RawSpec) : Org :=
  { org with journeys := org.journeys ++ [Journey.create P id spec] }

/-- The write of `editDraft` on the draft. -/
def JourneyVersion.edit (P : Platform) (v : JourneyVersion) (spec : RawSpec) : JourneyVersion :=
  { v with
    spec := RawSpec.stored spec
    specHash := hashSpec P.sha256Hex spec.1
    publishFingerprint := none }

/-- The refusal of a call on an archived journey. -/
def isArchived (id : String) : JourneyError :=
  .conflict ("journeys_conflict: journey " ++ id ++ " is archived")

/-- The checks of `editDraft`, and the spec it writes. -/
def editCheck (org : Org) (id : String) (edit : RawSpec → Except JourneyError RawSpec)
    (ifSpecHash : Option String) : Except JourneyError (Journey × RawSpec) := do
  let journey ← org.load id
  require (journey.status ≠ .archived) (isArchived id)
  require (¬ truthy ifSpecHash ∨ (journey.latestVersion.map (·.specHash)) = ifSpecHash)
    (.conflict ("journeys_draft_changed: journey " ++ id ++
      " changed since you loaded it; reload and apply your edit again")
      (some "journeys_draft_changed"))
  let spec ← edit ((journey.latestVersion.map (·.spec)).getD EMPTY_SPEC)
  pure (journey, spec)

/-- The write of `editDraft`: the draft is rewritten, or a new one is begun. -/
def Journey.writeDraft (P : Platform) (j : Journey) (spec : RawSpec) : Journey :=
  match j.latestVersion with
  | none => { j with versions := j.versions ++ [newVersion P 1 spec none] }
  | some latest =>
    if latest.publishedAt.isNone then
      j.updateVersions (fun v => v.number = latest.number && v.publishedAt.isNone) (·.edit P spec)
    else
      { j with versions := j.versions ++
          [newVersion P (latest.number + 1) spec (some latest.number)] }

/-- The number of the version that `editDraft` writes. -/
def Journey.draftNumber (j : Journey) : Nat :=
  match j.latestVersion with
  | none => 1
  | some latest => if latest.publishedAt.isNone then latest.number else latest.number + 1

/-! ### Requesting a publication -/

/-- The review statistics of an agent-drafted node that asks to send without review. -/
structure ReviewStats where
  reviewed : Nat := 0
  uneditedPct : Nat := 0
  readyForAuto : Bool := false

/-- What a request finds outside the journeys' own rows. -/
structure RequestEnv where
  /-- The references other than journeys. -/
  refs : JourneyReferences := {}
  reviewStats : NodeId → ReviewStats := fun _ => {}
  templates : EmailTemplates := {}

/-- What a request returns and writes. -/
structure PublishRequest where
  number : Nat
  specHash : String
  autoNodes : List NodeId
  templates : List (String × String)
  fingerprint : String

/-- The validation of a stored spec. -/
def validateSpec (P : Platform) (spec : RawSpec) (refs : JourneyReferences) : JourneyValidation :=
  match P.parseSpec spec with
  | none => ⟨false, [{ code := "schema", message := "" }], []⟩
  | some parsed => validateJourneySpec P.checkMessageMergeFields parsed refs

/-- The agent-drafted messages that would send without review. -/
def agentAuto (spec : JourneySpec) : List MessageNode :=
  spec.messages.filter fun n => n.draftBy = some .agent && n.approval = .auto

/-- The refusal of nodes that have not earned to send without review. -/
def notEarnedError (stats : NodeId → ReviewStats) (nodes : List MessageNode) : JourneyError :=
  .invalid ("journeys_invalid: an agent-drafted step can send without review only after 30 " ++
    "reviewed drafts in 30 days with at least 90% approved unedited — " ++
    String.intercalate "; " (nodes.map fun n =>
      "\"" ++ n.id ++ "\" has " ++ toString (stats n.id).reviewed ++
        " reviewed drafts from its current brief at " ++ toString (stats n.id).uneditedPct ++
        "% approved unedited"))

/-- The refusal of a version that is published. -/
def alreadyPublished (number : Nat) : JourneyError :=
  .conflict ("journeys_conflict: version " ++ toString number ++ " is already published")

/-- The version that a request is about: the one named, or the draft. -/
def Journey.requestedVersion (j : Journey) (number : Option Nat) :
    Except JourneyError JourneyVersion :=
  match number with
  | some (n + 1) => orThrow (j.versionRow (n + 1))
    (.notFound ("journeys_not_found: journey " ++ j.id ++ " has no version " ++ toString (n + 1)))
  | _ => orThrow j.draft
    (.invalid ("journeys_invalid: journey " ++ j.id ++ " has no draft to publish"))

/-- `requestPublish`, up to its write. -/
def requestPublish (P : Platform) (org : Org) (id : String) (number : Option Nat)
    (env : RequestEnv) : Except JourneyError PublishRequest := do
  let journey ← org.load id
  require (journey.status ≠ .archived) (isArchived id)
  let draft ← journey.requestedVersion number
  require (draft.publishedAt = none) (alreadyPublished draft.number)
  let validation := validateSpec P draft.spec
    { env.refs with journeys := some org.journeyRefs, selfJourneyId := some id }
  require (validation.valid = true)
    (.invalid ("journeys_invalid: version " ++ toString draft.number ++ " has " ++
      toString validation.errors.length ++ " validation error(s): " ++
      String.intercalate "; " ((validation.errors.take 3).map (·.message))))
  let spec ← orThrow (P.parseSpec draft.spec) (.thrown "ZodError")
  require (journey.live.all fun v => (P.parseSpec v.spec).isSome) (.thrown "ZodError")
  let notEarned := (agentAuto spec).filter fun n => !(env.reviewStats n.id).readyForAuto
  require (notEarned = []) (notEarnedError env.reviewStats notEarned)
  let templates ← autoTemplateHashes P env.templates spec
  pure {
    number := draft.number
    specHash := draft.specHash
    autoNodes := autoNodes spec
    templates := templates
    fingerprint :=
      publishFingerprint P id draft.number draft.specHash (autoNodes spec) templates }

/-- The write of `requestPublish` to the version it is about. -/
def JourneyVersion.request (v : JourneyVersion) (request : PublishRequest) : JourneyVersion :=
  { v with
    publishFingerprint := some request.fingerprint
    pinnedTemplates := sortFields jsonbRank request.templates }

/-- The write of `requestPublish`. -/
def Journey.writeRequest (j : Journey) (request : PublishRequest) : Journey :=
  j.updateVersions
    (fun v => v.number = request.number && v.specHash = request.specHash && v.publishedAt.isNone)
    (·.request request)

/-! ### Confirming a publication -/

/-- The time zone in which `nextScheduledEntry` looks for the next entry of a recurring segment. -/
def JourneySpec.entryTimezone (spec : JourneySpec) : Option String :=
  match spec.entry.trigger with
  | .segment t =>
    if t.schedule = .once then none
    else some ((t.timezone <|> spec.settings.timezone).getD "UTC")
  | _ => none

/-- The refusal of a version that changed since its review. -/
def changedSinceReview (number : Nat) : JourneyError :=
  .conflict ("journeys_conflict: version " ++ toString number ++ " changed after its publish " ++
    "review was prepared — request publish again and review the new diff")

/-- The refusal of hashes that are not those of the request. -/
def templateChanged : JourneyError :=
  .conflict ("journeys_conflict: an email template used by an auto step changed after the " ++
    "publish review was prepared — request publish again and review it")

/-- `confirmPublish`, up to its write: the version that is published. -/
def confirmPublish (P : Platform) (org : Org) (id : String) (number : Nat) (fingerprint : String)
    (actor : Actor) (templates : EmailTemplates) : Except JourneyError JourneyVersion := do
  require (actor.type = .user) (.forbidden ("journeys_forbidden: only a person signed in to the " ++
    "Munin dashboard can publish a journey"))
  let journey ← org.load id
  require (journey.status ≠ .archived) (isArchived id)
  let row ← orThrow (journey.versionRow number)
    (.notFound ("journeys_not_found: journey " ++ id ++ " has no version " ++ toString number))
  require (row.publishedAt = none) (alreadyPublished number)
  require (truthy row.publishFingerprint = true ∧ row.publishFingerprint = some fingerprint ∧
    row.specHash = hashSpec P.sha256Hex row.spec.1) (changedSinceReview number)
  let spec ← orThrow (P.parseSpec row.spec) (.thrown "ZodError")
  let pinned ← autoTemplateHashes P templates spec
  require ((stringRecord pinned).stringify = (stringRecord row.pinnedTemplates).stringify)
    templateChanged
  require (spec.entryTimezone.all P.isValidTimezone) (.thrown "RangeError")
  pure row

/-- The writes of `confirmPublish`. -/
def Journey.publish (j : Journey) (row : JourneyVersion) (actor : Actor) (now : Instant) :
    Journey :=
  { j.updateVersions (fun v => v.number = row.number && v.publishedAt.isNone) fun v =>
      { v with publishedAt := some now, publishedByActorId := some actor.id } with
    liveVersion := some row.number
    status := if j.status = .paused then .paused else .live }

/-! ### Runs -/

/-- A call. -/
inductive JourneyCall where
  | create (id : String) (spec : Option RawSpec)
  /-- `editDraft`, with the edit of the operation that calls it; `replaceDraft` is the edit that
  ignores the draft. -/
  | editDraft (id : String) (edit : RawSpec → Except JourneyError RawSpec)
      (ifSpecHash : Option String)
  | requestPublish (id : String) (number : Option Nat) (env : RequestEnv)
  | confirmPublish (id : String) (number : Nat) (fingerprint : String) (actor : Actor)
      (templates : EmailTemplates) (now : Instant)
  /-- `pause`, `resume` and `archive`. -/
  | transition (id : String) (from' : List JourneyStatus) (to' : JourneyStatus)

/-- One call on the journeys; a call that is refused writes nothing. New journeys have new ids. -/
def Org.call (P : Platform) (org : Org) : JourneyCall → Org
  | .create id spec => if org.journeys.any (·.id = id) then org else org.create P id spec
  | .editDraft id edit ifSpecHash =>
    match editCheck org id edit ifSpecHash with
    | .ok (journey, spec) =>
      org.accept id (·.writeDraft P spec) (.edited id journey.draftNumber)
    | .error _ => org
  | .requestPublish id number env =>
    match requestPublish P org id number env with
    | .ok request =>
      org.accept id (·.writeRequest request)
        (.requested id request.number request.fingerprint request.specHash request.autoNodes
          request.templates)
    | .error _ => org
  | .confirmPublish id number fingerprint actor templates now =>
    match confirmPublish P org id number fingerprint actor templates with
    | .ok row => org.accept id (·.publish row actor now) (.published id number fingerprint)
    | .error _ => org
  | .transition id from' to' =>
    match org.load id with
    | .ok journey =>
      if journey.status ∈ from' then org.update id ({ · with status := to' }) else org
    | .error _ => org

/-- The calls of an organisation, one after the other. -/
def orgMachine (P : Platform) : Machine Org JourneyCall where
  step org call := some (org.call P call)

/-! ### A sample -/

/-- The text field of an object. -/
def textField (fields : List (String × Json)) (key : String) : Option String :=
  match fields.lookup key with
  | some (.str s) => some s
  | _ => none

/-- The reading of the nodes that the samples use. -/
def sampleNode : Json → Option JourneyNode
  | .obj fields => do
    let id ← textField fields "id"
    let type ← textField fields "type"
    if type = "message" then
      let content ← fields.lookup "content"
      match content with
      | .obj content => do
        let body ← textField content "body"
        some (.message {
          id
          content := { subject := textField content "subject", body }
          approval := .auto
          next := textField fields "next" })
      | _ => none
    else if type = "sub_journey" then do
      let journeyId ← textField fields "journeyId"
      some (.subJourney { id, journeyId, next := textField fields "next" })
    else if type = "exit" then some (.exit { id })
    else none
  | _ => none

/-- The reading of the samples. -/
def sampleParse (spec : RawSpec) : Option JourneySpec :=
  match spec.1 with
  | .obj fields =>
    match textField fields "start", fields.lookup "nodes" with
    | some start, some (.arr nodes) =>
      (nodes.mapM sampleNode).map fun nodes => {
        entry := { trigger := .manual }
        goal := some { event := "won", windowDays := 7 }
        start
        nodes }
    | _, _ => none
  | _ => none

/-- A sample spec with these nodes. -/
def sampleSpec (start : String) (nodes : List Json) : Json :=
  .obj [("entry", .obj [("trigger", .obj [("type", .str "manual")])]),
    ("goal", .obj [("event", .str "won"), ("windowDays", .num (.ofNat 7))]),
    ("start", .str start), ("nodes", .arr nodes)]

/-- An email that sends without review. -/
def sampleEmail (id next : String) : Json :=
  .obj [("id", .str id), ("type", .str "message"),
    ("content", .obj [("subject", .str "Hi"), ("body", .str "Hi")]),
    ("approval", .str "auto"), ("next", .str next)]

def sampleExit : Json :=
  .obj [("id", .str "done"), ("type", .str "exit")]

/-- A spec with one email. -/
def oneEmail : RawSpec where
  val := sampleSpec "mail" [sampleEmail "mail" "done", sampleExit]
  property := by
    simp [sampleSpec, sampleEmail, sampleExit, Json.WellKeyed, WellKeyedItems, WellKeyedFields]

/-- A number below `16 ^ 64` in 64 hexadecimal digits. -/
def hexText (n : Nat) : String :=
  .ofList (List.ofFn fun i : Fin 64 => hexDigit (n / 16 ^ (63 - i.val) % 16))

theorem hexText_length (n : Nat) : (hexText n).toList.length = 64 := by
  rw [hexText, String.toList_ofList, List.length_ofFn]

/-- The SHA-256 of the texts that the sample with one email is hashed through; of others, that of
the empty text. -/
def sampleSha256Hex (text : String) : String :=
  hexText (
    if text = "<mjml></mjml>" then
      0x02a57beff26de45a11d05b1a91ae4f9de5fcd02008f498e5e81c3b03e8c50937
    else if text = canonicalJson oneEmail.1 then
      0x3ea21bc581966273d3c79eab27dbce56e7a4ffde25810e509167ea07d08186dc
    else if text = "[\"j1\",1," ++
        "\"3ea21bc581966273d3c79eab27dbce56e7a4ffde25810e509167ea07d08186dc\"," ++
        "[\"mail\"],[[\"mail\",\"02a57beff26de45a11d05b1a91ae4f9d\"]]]" then
      0x69fa2a296289a933b10c5a5c85561321c92a7c1db90dca2601febc52629ac2a5
    else 0xe3b0c44298fc1c149afbf4c8996fb92427ae41e4649b934ca495991b7852b855)

/-- The platform of the samples. -/
def samplePlatform : Platform where
  sha256Hex := sampleSha256Hex
  sha256Hex_length _ := hexText_length _
  collate a b := utf16 a ≤ utf16 b
  isValidTimezone zone := zone = "UTC"
  parseSpec := sampleParse
  checkMessageMergeFields _ := {}
  builtInEmailTemplate := "<mjml></mjml>"

/-- What a request of the samples finds outside the journeys: an organisation with a template. -/
def sampleEnv : RequestEnv where
  templates := { default := some "<mjml></mjml>" }

end Munin
