import Munin.Cms.FieldChecks
import Munin.Foundations.KeyOrder
import Munin.Foundations.Machine
import Munin.Foundations.OwnedRows

/-!
# The asset reference index

For every entry, `cms_asset_references` lists the assets that its data uses, so that an asset in use
is not deleted. What an entry uses depends on its data and on the fields of its collection.
`createEntry`, `updateEntry` and `restoreVersion` write the rows of the entry; an update does so if
the hash of what it writes is not that of the last one. `updateCollection` replaces the fields and
writes no rows.

* **`CmsOrg`, `CmsOp`** — the tables, and the operations on them one after another.
* **`CmsOrg.Indexed`** — the index is exact: the rows of an entry are what its data uses.
* **`KeepsUses`** — the condition on an operation: new fields leave what every entry uses as it is,
  and data that uses something else has another hash.
* **`asset_index_exact`** — in a run whose operations meet it, the index is exact, and an asset is
  deleted just if no entry uses it.
* **`field_change_unindexed`** — new fields under which an entry uses an asset leave the index as it
  is, and the asset is deleted.

The locks of the rows play no part, as the operations come one after another. Columns that follow
from the others, translation groups, the index of entries, and the names and files of assets are
left out; what text and block edits make of the data is part of the operation, and so is the answer
of `usageFor`, the uses outside the CMS.
-/

namespace Munin

open Foundations

/-! ### The content hash -/

/-- How the two halves of the hash are mixed in the end. -/
def mixHash (h k : UInt32) : UInt32 :=
  ((h ^^^ (h >>> (16 : UInt32))) * (0x735a2d97 : UInt32)) ^^^
    ((k ^^^ (k >>> (13 : UInt32))) * (0xcaf649a9 : UInt32))

/-- `contentHash`; `none` where it throws. -/
def contentHash (title body : String) : Option String :=
  let input := utf16 (title ++ body)
  if input.length > 5000000 then none
  else
    let (h1, h2) := input.foldl
      (fun (h : UInt32 × UInt32) c =>
        ((h.1 ^^^ .ofNat c) * 0x9e3779b1, (h.2 ^^^ .ofNat c) * 0x85ebca77))
      ((0xdeadbeef, 0x41c6ce57) : UInt32 × UInt32)
    let h1' := mixHash h1 h2
    let h2' := mixHash h2 h1'
    let hex (h : UInt32) := (Nat.toDigits 16 h.toNat).leftpad 8 '0'
    some (.ofList (hex h1' ++ hex h2'))

/-! ### The tables -/

/-- A row of `cms_collections`. -/
structure CmsCollection where
  id : String
  slug : String
  fields : List FieldDef

/-- A row of `cms_assets`. -/
structure CmsAsset where
  id : String
  uploaded : Bool

/-- A row of `cms_entries`, with its versions. -/
structure CmsEntryRow where
  id : String
  collectionId : String
  entry : CmsEntry
  contentHash : String
  versions : List CmsEntryVersion

/-- A row of `cms_asset_references`. -/
structure CmsAssetReference where
  fromEntryId : String
  use : AssetUse

/-- The tables of an organisation. -/
structure CmsOrg where
  collections : List CmsCollection := []
  assets : List CmsAsset := []
  entries : List CmsEntryRow := []
  assetReferences : List CmsAssetReference := []

/-- The statuses as the code spells them. -/
def CmsEntryStatus.spelled : CmsEntryStatus → String
  | .draft => "draft"
  | .scheduled => "scheduled"
  | .published => "published"
  | .archived => "archived"

/-- What an entry's content hash is taken of. -/
def entryHash (slug locale : String) (status : CmsEntryStatus) (data : JsonObject) :
    Option String :=
  contentHash (slug ++ "|" ++ locale ++ "|" ++ status.spelled) (Json.obj data).stringify

namespace CmsOrg

variable (s : CmsOrg)

/-- By its id or its slug. -/
def getCollection (idOrSlug : String) : Option CmsCollection :=
  s.collections.find? fun c => c.id = idOrSlug || c.slug = idOrSlug

/-- By its id alone. -/
def getCollectionById (id : String) : Option CmsCollection :=
  s.collections.find? (·.id = id)

/-- The row of an entry. -/
def loadEntryRow (id : String) : Option CmsEntryRow := s.entries.find? (·.id = id)

/-- The asset is there. -/
def hasAsset (id : String) : Bool := s.assets.any (·.id = id)

/-- `rewriteAssetReferences`. -/
def rewriteAssetReferences (entryId : String) (fields : List FieldDef) (data : JsonObject) :
    CmsOrg :=
  { s with
    assetReferences :=
      replaceRows CmsAssetReference.fromEntryId entryId
        (((extractAssetReferences fields data).filter fun use => s.hasAsset use.assetId).map
          fun use => ⟨entryId, use⟩)
        s.assetReferences }

/-- What `assertAssetsExist` lets pass: the assets in proses are uploaded. -/
def assetsExist (fields : List FieldDef) (data : JsonObject) : Bool :=
  (extractAssetReferences fields data).all fun use =>
    use.kind ≠ .inline || s.assets.any fun a => a.id = use.assetId && a.uploaded

/-- What `findMissingReferences` finds of a reference. -/
def finds (r : IdReference) : Bool :=
  match r.target with
  | .asset => s.hasAsset r.id
  | .entry => s.entries.any (·.id = r.id)

/-- What `assertReferencesInOrg` lets pass: every reference that the previous data did not have. -/
def referencesInOrg (fields : List FieldDef) (data : JsonObject) (previous : Option JsonObject)
    (checkEntryReferences : Bool) : Bool :=
  let kept := (previous.elim [] (listIdReferences fields)).map fun r => (r.target, r.id)
  (listIdReferences fields data).all fun r =>
    kept.contains (r.target, r.id) || (r.target = .asset && r.inline) ||
      (r.target = .entry && !checkEntryReferences) || s.finds r

/-- What an entry must pass to be saved with the data. -/
def accepts (parses : String → Bool) (fields : List FieldDef) (data : JsonObject)
    (previous : Option JsonObject) (checkEntryReferences : Bool) : Bool :=
  (validateEntryData parses fields data).isEmpty && s.assetsExist fields data &&
    s.referencesInOrg fields data previous checkEntryReferences

/-- What `assertEntrySlugFree` lets pass. -/
def slugFree (collectionId slug locale : String) (exceptId : Option String) : Bool :=
  s.entries.all fun e =>
    e.collectionId ≠ collectionId || e.entry.slug ≠ slug || e.entry.locale ≠ locale ||
      some e.id = exceptId

/-- One entry written. -/
def setEntry (row : CmsEntryRow) : CmsOrg :=
  { s with entries := s.entries.map fun e => if e.id = row.id then row else e }

end CmsOrg

/-- The data that an update is going to write: the patch over the old data, and then edited. -/
def CmsEntryRow.edited (row : CmsEntryRow) (data : Option JsonObject)
    (edits : Option (JsonObject → Option JsonObject)) : Option JsonObject :=
  (edits.getD some) (match data with
    | some patch => spread row.entry.data patch
    | none => row.entry.data)

/-- The hash of what an update is going to write. -/
def CmsEntryRow.newHash (row : CmsEntryRow) (slug locale : Option String) (newData : JsonObject) :
    Option String :=
  entryHash (slug.getD row.entry.slug) (locale.getD row.entry.locale) row.entry.status newData

/-! ### The operations -/

/-- An operation, with the id that a new row gets. -/
inductive CmsOp where
  | createCollection (id slug : String) (fields : List FieldDef)
  | updateCollection (idOrSlug : String) (fields : Option (List FieldDef))
  | deleteCollection (idOrSlug : String)
  | createEntry (id collection slug locale : String) (data : JsonObject) (published : Bool)
    (now : Instant) (checkEntryReferences : Bool)
  | updateEntry (id : String) (ifVersion : ℕ) (data : Option JsonObject)
    (edits : Option (JsonObject → Option JsonObject)) (slug locale : Option String)
    (checkEntryReferences : Bool)
  | restoreVersion (id : String) (version ifVersion : ℕ)
  | transition (id : String) (ifVersion : ℕ) (write : CmsWrite) (now : Instant)
  | deleteEntry (id : String) (ifVersion : ℕ)
  | requestAssetUpload (id : String)
  | uploadAsset (id : String)
  | completeAssetUpload (id : String)
  | deleteAsset (id : String) (usedElsewhere : Bool)

namespace CmsOrg

variable (s : CmsOrg) (parses : String → Bool)

/-- A collection whose fields are valid and whose slug is new. -/
def createCollection (id slug : String) (fields : List FieldDef) : Option CmsOrg :=
  if isValidSlug slug ∧ validateFieldsShape true [] fields = none ∧
      s.collections.all (fun c => c.slug ≠ slug && c.id ≠ id) then
    some { s with collections := s.collections ++ [⟨id, slug, fields⟩] }
  else none

/-- The fields may change; the index is not rebuilt. -/
def updateCollection (idOrSlug : String) (fields : Option (List FieldDef)) : Option CmsOrg :=
  (s.getCollection idOrSlug).bind fun collection =>
    match fields with
    | none => some s
    | some fields =>
      if validateFieldsShape true [] fields = none then
        some { s with
          collections := s.collections.map fun c =>
            if c.id = collection.id then { c with fields := fields } else c }
      else none

/-- The entries and their rows in the index go with the collection. -/
def deleteCollection (idOrSlug : String) : Option CmsOrg :=
  (s.getCollection idOrSlug).map fun collection =>
    { s with
      collections := s.collections.filter (·.id ≠ collection.id)
      entries := s.entries.filter (·.collectionId ≠ collection.id)
      assetReferences := s.assetReferences.filter fun r =>
        s.entries.all fun e => e.id ≠ r.fromEntryId || e.collectionId ≠ collection.id }

/-- The row of a new entry. -/
def createdRow (id collectionId slug locale : String) (data : JsonObject) (published : Bool)
    (now : Instant) (hash : String) : CmsEntryRow :=
  let entry : CmsEntry :=
    { slug := slug, locale := locale, data := data
      status := if published then .published else .draft
      publishedAt := if published then some now else none }
  ⟨id, collectionId, entry, hash, [entry.snapshot]⟩

/-- An entry whose data is accepted, and its first version. -/
def createEntry (id idOrSlug slug locale : String) (data : JsonObject) (published : Bool)
    (now : Instant) (checkEntryReferences : Bool) : Option CmsOrg :=
  (s.getCollection idOrSlug).bind fun collection =>
    if s.accepts parses collection.fields data none checkEntryReferences ∧
        s.slugFree collection.id slug locale none ∧ s.entries.all (·.id ≠ id) then
      (entryHash slug locale (if published then .published else .draft) data).map fun hash =>
        ({ s with
            entries := s.entries ++
              [createdRow id collection.id slug locale data published now hash] } :
          CmsOrg).rewriteAssetReferences id collection.fields data
    else none

/-- The row of an entry with the data of an update. -/
def updatedRow (existing : CmsEntryRow) (slug locale : String) (newData : JsonObject)
    (hash : String) : CmsEntryRow :=
  let entry := { existing.entry with
    slug := slug, locale := locale, data := newData, version := existing.entry.version + 1 }
  { existing with
    entry := entry, contentHash := hash, versions := existing.versions ++ [entry.snapshot] }

/-- The next version, if it is the one that was read. -/
def updateEntry (id : String) (ifVersion : ℕ) (data : Option JsonObject)
    (edits : Option (JsonObject → Option JsonObject)) (slug locale : Option String)
    (checkEntryReferences : Bool) : Option CmsOrg :=
  (s.loadEntryRow id).bind fun existing =>
  (s.getCollectionById existing.collectionId).bind fun collection =>
  (existing.edited data edits).bind fun newData =>
    let touchesData := data.isSome || edits.isSome
    let newSlug := slug.getD existing.entry.slug
    let newLocale := locale.getD existing.entry.locale
    if existing.entry.version = ifVersion ∧
        (touchesData → s.accepts parses collection.fields newData (some existing.entry.data)
          checkEntryReferences) ∧
        s.slugFree existing.collectionId newSlug newLocale (some id) then
      (existing.newHash slug locale newData).map fun hash =>
        let s' := s.setEntry (updatedRow existing newSlug newLocale newData hash)
        if hash ≠ existing.contentHash then
          s'.rewriteAssetReferences id collection.fields newData
        else s'
    else none

/-- An update with the data of a version. -/
def restoreVersion (id : String) (version ifVersion : ℕ) : Option CmsOrg :=
  (s.loadEntryRow id).bind fun existing =>
    if existing.entry.version = ifVersion then
      (existing.versions.find? (·.version = version)).bind fun target =>
        s.updateEntry parses id ifVersion (some target.data) none none none true
    else none

/-- The row of an entry with another status. -/
def transitionedRow (existing : CmsEntryRow) (write : CmsWrite) (now : Instant) : CmsEntryRow :=
  let entry := write.set existing.entry now existing.entry
  { existing with
    entry := entry, versions := existing.versions ++ [write.snapshot existing.entry entry] }

/-- `transition`, and the worker that publishes a scheduled entry: the data stays. -/
def transition (id : String) (ifVersion : ℕ) (write : CmsWrite) (now : Instant) :
    Option CmsOrg :=
  (s.loadEntryRow id).bind fun existing =>
    match write with
    | .edit .. => none
    | write =>
      if existing.entry.version = ifVersion then
        some (s.setEntry (transitionedRow existing write now))
      else none

/-- The rows of the entry in the index go with it. -/
def deleteEntry (id : String) (ifVersion : ℕ) : Option CmsOrg :=
  (s.loadEntryRow id).bind fun existing =>
    if existing.entry.version = ifVersion then
      some { s with
        entries := s.entries.filter (·.id ≠ id)
        assetReferences := s.assetReferences.filter (·.fromEntryId ≠ id) }
    else none

/-- An asset whose file is still to come. -/
def insertAsset (asset : CmsAsset) : Option CmsOrg :=
  if s.hasAsset asset.id then none else some { s with assets := s.assets ++ [asset] }

/-- Its file has come. -/
def completeAssetUpload (id : String) : Option CmsOrg :=
  if s.hasAsset id then
    some { s with
      assets := s.assets.map fun a => if a.id = id then { a with uploaded := true } else a }
  else none

/-- `listAssetUsage`. -/
def listAssetUsage (id : String) : List CmsAssetReference :=
  s.assetReferences.filter (·.use.assetId = id)

/-- An asset that nothing uses. -/
def deleteAsset (id : String) (usedElsewhere : Bool) : Option CmsOrg :=
  if s.hasAsset id ∧ s.listAssetUsage id = [] ∧ !usedElsewhere then
    some { s with
      assets := s.assets.filter (·.id ≠ id)
      assetReferences := s.assetReferences.filter (·.use.assetId ≠ id) }
  else none

/-- One operation; `none` if it is refused. -/
def step : CmsOp → Option CmsOrg
  | .createCollection id slug fields => s.createCollection id slug fields
  | .updateCollection idOrSlug fields => s.updateCollection idOrSlug fields
  | .deleteCollection idOrSlug => s.deleteCollection idOrSlug
  | .createEntry id collection slug locale data published now check =>
    s.createEntry parses id collection slug locale data published now check
  | .updateEntry id ifVersion data edits slug locale check =>
    s.updateEntry parses id ifVersion data edits slug locale check
  | .restoreVersion id version ifVersion => s.restoreVersion parses id version ifVersion
  | .transition id ifVersion write now => s.transition id ifVersion write now
  | .deleteEntry id ifVersion => s.deleteEntry id ifVersion
  | .requestAssetUpload id => s.insertAsset ⟨id, false⟩
  | .uploadAsset id => s.insertAsset ⟨id, true⟩
  | .completeAssetUpload id => s.completeAssetUpload id
  | .deleteAsset id usedElsewhere => s.deleteAsset id usedElsewhere

end CmsOrg

/-- Nothing is there yet. -/
def CmsOrg.IsNew (s : CmsOrg) : Prop := s = {}

/-- The operations of an organisation. -/
def cmsOrgMachine (parses : String → Bool) : Machine CmsOrg CmsOp := ⟨(·.step parses)⟩

/-! ### What an exact index is -/

namespace CmsOrg

variable (s : CmsOrg)

/-- The assets that the data of an entry uses under the current fields of its collection. -/
def usesOf (e : CmsEntryRow) : List AssetUse :=
  (s.getCollectionById e.collectionId).elim [] fun c => extractAssetReferences c.fields e.entry.data

/-- The uses that the index has for an entry. -/
def indexedUses (id : String) : List AssetUse :=
  (rowsOf CmsAssetReference.fromEntryId id s.assetReferences).map (·.use)

/-- **The index is exact.** -/
def Indexed : Prop := ∀ e ∈ s.entries, (s.indexedUses e.id).Perm (s.usesOf e)

/-- Some entry uses the asset. -/
def Uses (id : String) : Prop := ∃ e ∈ s.entries, ∃ use ∈ s.usesOf e, use.assetId = id

end CmsOrg

/-- What an update is going to write has another hash than the last write, or uses the same
assets. -/
def KeepsUnlessHashed (s : CmsOrg) (id : String) (data : Option JsonObject)
    (edits : Option (JsonObject → Option JsonObject)) (slug locale : Option String) : Prop :=
  ∀ existing ∈ s.loadEntryRow id, ∀ c ∈ s.getCollectionById existing.collectionId,
    ∀ newData ∈ existing.edited data edits,
      existing.newHash slug locale newData = some existing.contentHash →
        (extractAssetReferences c.fields newData).Perm
          (extractAssetReferences c.fields existing.entry.data)

/-- The condition on an operation: new fields leave the uses of every entry as they are, and so does
an update that has the hash of the last write. -/
def KeepsUses (s : CmsOrg) : CmsOp → Prop
  | .updateCollection idOrSlug fields =>
    ∀ c ∈ s.getCollection idOrSlug, ∀ fields' ∈ fields, ∀ e ∈ s.entries, e.collectionId = c.id →
      (extractAssetReferences fields' e.entry.data).Perm
        (extractAssetReferences c.fields e.entry.data)
  | .updateEntry id _ data edits slug locale _ => KeepsUnlessHashed s id data edits slug locale
  | .restoreVersion id version _ =>
    ∀ existing ∈ s.loadEntryRow id, ∀ target ∈ existing.versions.find? (·.version = version),
      KeepsUnlessHashed s id (some target.data) none none none
  | _ => True

instance (s : CmsOrg) (id : String) (data : Option JsonObject)
    (edits : Option (JsonObject → Option JsonObject)) (slug locale : Option String) :
    Decidable (KeepsUnlessHashed s id data edits slug locale) := by
  unfold KeepsUnlessHashed
  infer_instance

instance (s : CmsOrg) (op : CmsOp) : Decidable (KeepsUses s op) := by
  cases op <;> unfold KeepsUses <;> infer_instance

/-! ### The invariant -/

/-- The tables fit together, and the index is exact but for one entry. -/
structure IndexOk (s : CmsOrg) (but : Option String) : Prop where
  collections_nodup : (s.collections.map (·.id)).Nodup
  entries_nodup : (s.entries.map (·.id)).Nodup
  collection : ∀ e ∈ s.entries, ∃ c ∈ s.collections, c.id = e.collectionId
  owner : ∀ r ∈ s.assetReferences, ∃ e ∈ s.entries, e.id = r.fromEntryId
  asset : ∀ r ∈ s.assetReferences, s.hasAsset r.use.assetId = true
  indexed : ∀ e ∈ s.entries, some e.id ≠ but → ∀ c ∈ s.collections, c.id = e.collectionId →
    (s.indexedUses e.id).Perm (extractAssetReferences c.fields e.entry.data)

/-- Elements with distinct keys are found by them. -/
theorem find_of_mem {α : Type*} {f : α → String} {l : List α} (hnodup : (l.map f).Nodup) {a : α}
    (ha : a ∈ l) : l.find? (f · = f a) = some a := by
  induction l with
  | nil => cases ha
  | cons b l ih =>
    rw [List.map_cons, List.nodup_cons] at hnodup
    by_cases hb : f b = f a
    · rcases List.mem_cons.1 ha with rfl | hmem
      · simp
      · exact absurd (List.mem_map.2 ⟨a, hmem, hb.symm⟩) hnodup.1
    · rw [List.find?_cons_of_neg (by simpa using hb)]
      refine ih hnodup.2 ((List.mem_cons.1 ha).resolve_left ?_)
      rintro rfl
      exact hb rfl

section Invariant

variable {s : CmsOrg} {but : Option String} {parses : String → Bool}

variable {c : CmsCollection} {e : CmsEntryRow} {check : Bool} {x id : String} {s' : CmsOrg}
  {now : Instant} {ifVersion : ℕ}

theorem CmsOrg.getCollectionById_of_mem (hs : IndexOk s but)
    (hc : c ∈ s.collections) : s.getCollectionById c.id = some c :=
  find_of_mem hs.collections_nodup hc

theorem IndexOk.usesOf_eq (hs : IndexOk s but)
    (hc : c ∈ s.collections) (he : c.id = e.collectionId) :
    s.usesOf e = extractAssetReferences c.fields e.entry.data := by
  rw [CmsOrg.usesOf, ← he, CmsOrg.getCollectionById_of_mem hs hc, Option.elim_some]

theorem IndexOk.exact (hs : IndexOk s none) : s.Indexed := by
  intro e he
  obtain ⟨c, hc, hid⟩ := hs.collection e he
  rw [hs.usesOf_eq hc hid]
  exact hs.indexed e he nofun c hc hid

/-- What the data of an entry uses exists. -/
theorem IndexOk.known (hs : IndexOk s none) (he : e ∈ s.entries) (hc : c ∈ s.collections)
    (hid : c.id = e.collectionId) :
    ∀ use ∈ extractAssetReferences c.fields e.entry.data, s.hasAsset use.assetId = true := by
  intro use huse
  have hmem := (hs.indexed e he nofun c hc hid).mem_iff.2 huse
  obtain ⟨r, hr, rfl⟩ := List.mem_map.1 hmem
  exact hs.asset r (mem_rowsOf.1 hr).1

variable {data : JsonObject}

/-- What accepted data uses exists, if what the previous data uses does. -/
theorem known_of_accepts {fields : List FieldDef} {previous : Option JsonObject}
    (h : s.accepts parses fields data previous check = true)
    (hprevious : ∀ p ∈ previous, ∀ use ∈ extractAssetReferences fields p,
      s.hasAsset use.assetId = true) :
    ∀ use ∈ extractAssetReferences fields data, s.hasAsset use.assetId = true := by
  intro use huse
  rw [CmsOrg.accepts, Bool.and_eq_true, Bool.and_eq_true] at h
  obtain ⟨⟨-, hinline⟩, hrefs⟩ := h
  cases hkind : use.kind with
  | inline =>
    have hall := List.all_eq_true.1 hinline use huse
    simp only [hkind, ne_eq, not_true_eq_false, decide_false, Bool.false_or] at hall
    obtain ⟨a, ha, hid⟩ := List.any_eq_true.1 hall
    rw [Bool.and_eq_true] at hid
    exact List.any_eq_true.2 ⟨a, ha, hid.1⟩
  | field =>
    have hall := List.all_eq_true.1 hrefs _ (mem_listIdReferences_of_use huse)
    simp only [hkind, reduceCtorEq, decide_false, Bool.and_false, Bool.or_false, Bool.false_and,
      Bool.or_eq_true, CmsOrg.finds] at hall
    rcases hall with hkept | hfound
    · -- the previous data refers to the asset, so it uses it
      rw [List.contains_iff_mem, List.mem_map] at hkept
      obtain ⟨r, hr, hkey⟩ := hkept
      obtain ⟨htarget, hid⟩ := Prod.mk.inj hkey
      cases previous with
      | none => simp at hr
      | some p =>
        obtain ⟨use', huse', hsame⟩ := exists_use_of_mem hr htarget
        rw [← hid, ← hsame]
        exact hprevious p rfl use' huse'
    · exact hfound

/-- **The rows of one entry rewritten**, its uses being of assets that exist. -/
theorem IndexOk.rewrite (hs : IndexOk s (some e.id)) (he : e ∈ s.entries) (hc : c ∈ s.collections)
    (hid : c.id = e.collectionId) (hknown : ∀ use ∈ extractAssetReferences c.fields e.entry.data,
      s.hasAsset use.assetId = true) :
    IndexOk (s.rewriteAssetReferences e.id c.fields e.entry.data) none := by
  have hall : (extractAssetReferences c.fields e.entry.data).filter
      (fun use => s.hasAsset use.assetId) = extractAssetReferences c.fields e.entry.data :=
    List.filter_eq_self.2 hknown
  have hnew : ∀ r ∈ (extractAssetReferences c.fields e.entry.data).map
      (fun use => (⟨e.id, use⟩ : CmsAssetReference)), r.fromEntryId = e.id := by
    intro r hr
    obtain ⟨use, -, rfl⟩ := List.mem_map.1 hr
    rfl
  unfold CmsOrg.rewriteAssetReferences
  rw [hall]
  refine ⟨hs.collections_nodup, hs.entries_nodup, hs.collection, fun r hr => ?_, fun r hr => ?_,
    fun f hf _ d hd hfd => ?_⟩
  · rcases mem_replaceRows hr with ⟨hold, -⟩ | hr
    · exact hs.owner r hold
    · exact ⟨e, he, (hnew r hr).symm⟩
  · rcases mem_replaceRows hr with ⟨hold, -⟩ | hr
    · exact hs.asset r hold
    · obtain ⟨use, huse, rfl⟩ := List.mem_map.1 hr
      exact hknown use huse
  · by_cases hfe : f.id = e.id
    · obtain rfl : f = e := List.inj_on_of_nodup_map hs.entries_nodup hf he hfe
      obtain rfl : d = c :=
        List.inj_on_of_nodup_map hs.collections_nodup hd hc (hfd.trans hid.symm)
      rw [CmsOrg.indexedUses, rowsOf_replaceRows_self hnew, List.map_map]
      exact .of_eq (List.map_id _)
    · rw [CmsOrg.indexedUses, rowsOf_replaceRows_of_ne hnew hfe]
      exact hs.indexed f hf (fun h => hfe (Option.some.inj h)) d hd hfd

/-- An index that is exact for the last entry as well. -/
theorem IndexOk.whole (hs : IndexOk s (some e.id)) (he : e ∈ s.entries) (hc : c ∈ s.collections)
    (hid : c.id = e.collectionId)
    (h : (s.indexedUses e.id).Perm (extractAssetReferences c.fields e.entry.data)) :
    IndexOk s none := by
  refine { hs with indexed := fun f hf _ d hd hfd => ?_ }
  by_cases hfe : f.id = e.id
  · obtain rfl : f = e := List.inj_on_of_nodup_map hs.entries_nodup hf he hfe
    obtain rfl : d = c := List.inj_on_of_nodup_map hs.collections_nodup hd hc (hfd.trans hid.symm)
    exact h
  · exact hs.indexed f hf (fun h => hfe (Option.some.inj h)) d hd hfd

/-! ### Collections -/

theorem CmsOrg.getCollection_mem (h : s.getCollection x = some c) :
    c ∈ s.collections := List.mem_of_find?_eq_some h

theorem CmsOrg.getCollectionById_mem
    (h : s.getCollectionById id = some c) : c ∈ s.collections ∧ c.id = id :=
  ⟨List.mem_of_find?_eq_some h, by simpa using List.find?_some h⟩

theorem CmsOrg.loadEntryRow_mem (h : s.loadEntryRow id = some e) : e ∈ s.entries ∧ e.id = id :=
  ⟨List.mem_of_find?_eq_some h, by simpa using List.find?_some h⟩

section Keeps

variable (hs : IndexOk s none)

include hs

theorem IndexOk.createCollection {slug : String} {fields : List FieldDef}
    (h : s.createCollection id slug fields = some s') : IndexOk s' none := by
  rw [CmsOrg.createCollection] at h
  split at h
  case isFalse => cases h
  case isTrue hchecks =>
    obtain rfl := Option.some.inj h
    have hfresh : ∀ c ∈ s.collections, c.id ≠ id := by
      intro c hc
      have hall := List.all_eq_true.1 hchecks.2.2 c hc
      rw [Bool.and_eq_true, decide_eq_true_iff, decide_eq_true_iff] at hall
      exact hall.2
    refine ⟨?_, hs.entries_nodup, fun e he => ?_, hs.owner, hs.asset, fun e he hne c hc hid => ?_⟩
    · simp only [List.map_append, List.map_cons, List.map_nil]
      refine List.nodup_append'.2 ⟨hs.collections_nodup, by simp, ?_⟩
      rintro _ hold hnew
      obtain ⟨c, hc, rfl⟩ := List.mem_map.1 hold
      exact hfresh c hc (List.mem_singleton.1 hnew)
    · obtain ⟨c, hc, hid⟩ := hs.collection e he
      exact ⟨c, List.mem_append_left _ hc, hid⟩
    · rcases List.mem_append.1 hc with hc | hnew
      · exact hs.indexed e he hne c hc hid
      · obtain rfl := List.mem_singleton.1 hnew
        obtain ⟨d, hd, hde⟩ := hs.collection e he
        exact absurd (hde.trans hid.symm) (hfresh d hd)

theorem IndexOk.updateCollection
    {fields : Option (List FieldDef)} (hkeeps : KeepsUses s (.updateCollection x fields))
    (h : s.updateCollection x fields = some s') : IndexOk s' none := by
  obtain ⟨k, hk, h⟩ := Option.bind_eq_some_iff.1 h
  cases fields with
  | none =>
    obtain rfl := Option.some.inj h
    exact hs
  | some fields =>
    dsimp only at h
    split at h
    case isFalse => cases h
    case isTrue =>
      obtain rfl := Option.some.inj h
      have hids : (s.collections.map fun c => if c.id = k.id then { c with fields := fields }
          else c).map (·.id) = s.collections.map (·.id) := by
        rw [List.map_map]
        refine List.map_congr_left fun c _ => ?_
        by_cases hc : c.id = k.id <;> simp [hc]
      refine ⟨?_, hs.entries_nodup, fun e he => ?_, hs.owner, hs.asset, fun e he hne c hc hid => ?_⟩
      · exact hids ▸ hs.collections_nodup
      · obtain ⟨c, hc, hid⟩ := hs.collection e he
        refine ⟨_, List.mem_map_of_mem hc, ?_⟩
        split <;> exact hid
      · obtain ⟨d, hd, rfl⟩ := List.mem_map.1 hc
        by_cases hdk : d.id = k.id
        · rw [if_pos hdk] at hid ⊢
          obtain rfl : d = k := List.inj_on_of_nodup_map hs.collections_nodup hd
            (CmsOrg.getCollection_mem hk) hdk
          exact (hs.indexed e he hne d hd hid).trans (hkeeps d hk fields rfl e he hid.symm).symm
        · rw [if_neg hdk] at hid ⊢
          exact hs.indexed e he hne d hd hid

theorem IndexOk.deleteCollection (h : s.deleteCollection x = some s') : IndexOk s' none := by
  obtain ⟨k, -, rfl⟩ := Option.map_eq_some_iff.1 h
  refine ⟨?_, ?_, fun e he => ?_, fun r hr => ?_, fun r hr => ?_, fun e he hne c hc hid => ?_⟩
  · exact hs.collections_nodup.sublist (List.filter_sublist.map _)
  · exact hs.entries_nodup.sublist (List.filter_sublist.map _)
  · obtain ⟨he, hek⟩ := List.mem_filter.1 he
    obtain ⟨c, hc, hid⟩ := hs.collection e he
    exact ⟨c, List.mem_filter.2 ⟨hc, by rwa [hid]⟩, hid⟩
  · obtain ⟨hr, hkept⟩ := List.mem_filter.1 hr
    obtain ⟨e, he, hid⟩ := hs.owner r hr
    have hek := List.all_eq_true.1 hkept e he
    exact ⟨e, List.mem_filter.2 ⟨he, by simpa [hid] using hek⟩, hid⟩
  · exact hs.asset r (List.mem_filter.1 hr).1
  · obtain ⟨he, hek⟩ := List.mem_filter.1 he
    obtain ⟨hc, -⟩ := List.mem_filter.1 hc
    have hrows : rowsOf CmsAssetReference.fromEntryId e.id (s.assetReferences.filter fun r =>
        s.entries.all fun e => e.id ≠ r.fromEntryId || e.collectionId ≠ k.id) =
        rowsOf CmsAssetReference.fromEntryId e.id s.assetReferences := by
      rw [rowsOf, rowsOf, List.filter_filter]
      refine List.filter_congr fun r _ => ?_
      by_cases hr : r.fromEntryId = e.id
      · have hall : (s.entries.all fun f => f.id ≠ r.fromEntryId || f.collectionId ≠ k.id) =
            true := by
          refine List.all_eq_true.2 fun f hf => ?_
          by_cases hfe : f.id = r.fromEntryId
          · obtain rfl : f = e :=
              List.inj_on_of_nodup_map hs.entries_nodup hf he (hfe.trans hr)
            rw [hek, Bool.or_true]
          · simp [hfe]
        rw [hall, Bool.and_true]
      · simp [hr]
    rw [CmsOrg.indexedUses, hrows]
    exact hs.indexed e he hne c hc hid

/-! ### Entries -/

/-- A new entry, whose rows are still to come. -/
theorem IndexOk.addEntry (row : CmsEntryRow)
    (hfresh : ∀ e ∈ s.entries, e.id ≠ row.id) (hc : c ∈ s.collections)
    (hid : c.id = row.collectionId) :
    IndexOk { s with entries := s.entries ++ [row] } (some row.id) := by
  refine ⟨hs.collections_nodup, ?_, fun e he => ?_, fun r hr => ?_, hs.asset,
    fun e he hne d hd hde => ?_⟩
  · simp only [List.map_append, List.map_cons, List.map_nil]
    refine List.nodup_append'.2 ⟨hs.entries_nodup, by simp, ?_⟩
    rintro _ hold hnew
    obtain ⟨e, he, rfl⟩ := List.mem_map.1 hold
    exact hfresh e he (List.mem_singleton.1 hnew)
  · rcases List.mem_append.1 he with he | hnew
    · exact hs.collection e he
    · obtain rfl := List.mem_singleton.1 hnew
      exact ⟨c, hc, hid⟩
  · obtain ⟨e, he, hre⟩ := hs.owner r hr
    exact ⟨e, List.mem_append_left _ he, hre⟩
  · rcases List.mem_append.1 he with he | hnew
    · exact hs.indexed e he nofun d hd hde
    · obtain rfl := List.mem_singleton.1 hnew
      exact absurd rfl hne

theorem IndexOk.createEntry {slug locale : String} {published : Bool}
    (h : s.createEntry parses id x slug locale data published now check = some s') :
    IndexOk s' none := by
  obtain ⟨c, hc, h⟩ := Option.bind_eq_some_iff.1 h
  split at h
  case isFalse => cases h
  case isTrue hchecks =>
    obtain ⟨hash, -, rfl⟩ := Option.map_eq_some_iff.1 h
    obtain ⟨haccepts, -, hfresh⟩ := hchecks
    have hfresh : ∀ e ∈ s.entries, e.id ≠ id := fun e he =>
      of_decide_eq_true (List.all_eq_true.1 hfresh e he)
    have hmem := CmsOrg.getCollection_mem hc
    have hknown := known_of_accepts haccepts (fun p hp => by cases hp)
    have hadd := hs.addEntry (CmsOrg.createdRow id c.id slug locale data published now hash) hfresh
      hmem rfl
    exact hadd.rewrite (List.mem_append_right _ (List.mem_singleton_self _)) hmem rfl hknown

omit hs in
theorem CmsOrg.mem_setEntry {row f : CmsEntryRow} (h : f ∈ (s.setEntry row).entries) :
    f = row ∨ (f ∈ s.entries ∧ f.id ≠ row.id) := by
  obtain ⟨e, he, rfl⟩ := List.mem_map.1 h
  by_cases hid : e.id = row.id
  · exact .inl (if_pos hid)
  · rw [if_neg hid]
    exact .inr ⟨he, hid⟩

omit hs in
theorem CmsOrg.setEntry_mem (row : CmsEntryRow) (he : e ∈ s.entries)
    (hid : e.id = row.id) : row ∈ (s.setEntry row).entries :=
  List.mem_map.2 ⟨e, he, if_pos hid⟩

/-- One entry written, of the same collection. -/
theorem IndexOk.setEntry (row : CmsEntryRow)
    (he : e ∈ s.entries) (hid : e.id = row.id) (hcollection : row.collectionId = e.collectionId) :
    IndexOk (s.setEntry row) (some row.id) := by
  have hids : (s.setEntry row).entries.map (·.id) = s.entries.map (·.id) := by
    rw [CmsOrg.setEntry, List.map_map]
    refine List.map_congr_left fun f _ => ?_
    by_cases hf : f.id = row.id <;> simp [hf]
  refine ⟨hs.collections_nodup, hids ▸ hs.entries_nodup, fun f hf => ?_, fun r hr => ?_, hs.asset,
    fun f hf hne c hc hfc => ?_⟩
  · rcases CmsOrg.mem_setEntry hf with rfl | ⟨hf, -⟩
    · rw [hcollection]
      exact hs.collection e he
    · exact hs.collection f hf
  · obtain ⟨f, hf, hfr⟩ := hs.owner r hr
    by_cases hrow : f.id = row.id
    · exact ⟨row, CmsOrg.setEntry_mem row he hid, hrow.symm.trans hfr⟩
    · exact ⟨f, List.mem_map.2 ⟨f, hf, if_neg hrow⟩, hfr⟩
  · rcases CmsOrg.mem_setEntry hf with rfl | ⟨hf, -⟩
    · exact absurd rfl hne
    · exact hs.indexed f hf nofun c hc hfc

theorem IndexOk.updateEntry
    {data : Option JsonObject} {edits : Option (JsonObject → Option JsonObject)}
    {slug locale : Option String} (hkeeps : KeepsUnlessHashed s id data edits slug locale)
    (h : s.updateEntry parses id ifVersion data edits slug locale check = some s') :
    IndexOk s' none := by
  obtain ⟨existing, hexisting, h⟩ := Option.bind_eq_some_iff.1 h
  obtain ⟨c, hc, h⟩ := Option.bind_eq_some_iff.1 h
  obtain ⟨newData, hnew, h⟩ := Option.bind_eq_some_iff.1 h
  dsimp only at h
  split at h
  case isFalse => cases h
  case isTrue hchecks =>
    obtain ⟨hash, hhash, rfl⟩ := Option.map_eq_some_iff.1 h
    obtain ⟨-, haccepts, -⟩ := hchecks
    obtain ⟨hmem, rfl⟩ := CmsOrg.loadEntryRow_mem hexisting
    obtain ⟨hcmem, hcid⟩ := CmsOrg.getCollectionById_mem hc
    have hold := hs.known hmem hcmem hcid
    have hset := hs.setEntry (CmsOrg.updatedRow existing (slug.getD existing.entry.slug)
      (locale.getD existing.entry.locale) newData hash) hmem rfl rfl
    have hrow := CmsOrg.setEntry_mem (CmsOrg.updatedRow existing (slug.getD existing.entry.slug)
      (locale.getD existing.entry.locale) newData hash) hmem rfl
    -- what the new data uses exists, checked now or known from the old data
    have hknown : ∀ use ∈ extractAssetReferences c.fields newData,
        s.hasAsset use.assetId = true := by
      by_cases htouches : (data.isSome || edits.isSome) = true
      · exact known_of_accepts (haccepts htouches) fun p hp => by
          obtain rfl := Option.some.inj hp
          exact hold
      · rw [Bool.or_eq_true, not_or, Option.not_isSome_iff_eq_none,
          Option.not_isSome_iff_eq_none] at htouches
        obtain ⟨rfl, rfl⟩ := htouches
        obtain rfl := Option.some.inj hnew
        exact hold
    split
    case isTrue => exact hset.rewrite hrow hcmem hcid hknown
    case isFalse hsame =>
      have hsame := not_not.1 hsame
      rw [hsame] at hhash
      refine hset.whole hrow hcmem hcid ?_
      exact (hs.indexed existing hmem nofun c hcmem hcid).trans
        (hkeeps existing hexisting c hc newData hnew hhash).symm

theorem IndexOk.restoreVersion {version : ℕ}
    (hkeeps : KeepsUses s (.restoreVersion id version ifVersion))
    (h : s.restoreVersion parses id version ifVersion = some s') : IndexOk s' none := by
  obtain ⟨existing, hexisting, h⟩ := Option.bind_eq_some_iff.1 h
  split at h
  case isFalse => cases h
  case isTrue =>
    obtain ⟨target, htarget, h⟩ := Option.bind_eq_some_iff.1 h
    exact hs.updateEntry (hkeeps existing hexisting target htarget) h

omit hs in
theorem CmsWrite.set_data {w : CmsWrite} {existing current : CmsEntry}
    (h : ∀ slug locale data, w ≠ .edit slug locale data) :
    (w.set existing now current).data = current.data := by
  cases w with
  | edit slug locale data => exact absurd rfl (h slug locale data)
  | transition status scheduledAt publishedAt reason => cases status <;> rfl
  | promote => rfl

theorem IndexOk.transition {w : CmsWrite} (h : s.transition id ifVersion w now = some s') :
    IndexOk s' none := by
  obtain ⟨existing, hexisting, h⟩ := Option.bind_eq_some_iff.1 h
  split at h
  case h_1 => cases h
  case h_2 hedit =>
    split at h
    case isFalse => cases h
    case isTrue =>
      obtain rfl := Option.some.inj h
      obtain ⟨hmem, rfl⟩ := CmsOrg.loadEntryRow_mem hexisting
      obtain ⟨c, hc, hcid⟩ := hs.collection existing hmem
      have hdata : (w.set existing.entry now existing.entry).data = existing.entry.data :=
        CmsWrite.set_data hedit
      have hset := hs.setEntry (CmsOrg.transitionedRow existing w now) hmem rfl rfl
      refine hset.whole (CmsOrg.setEntry_mem _ hmem rfl) hc hcid ?_
      change (s.indexedUses existing.id).Perm
        (extractAssetReferences c.fields (w.set existing.entry now existing.entry).data)
      rw [hdata]
      exact hs.indexed existing hmem nofun c hc hcid

theorem IndexOk.deleteEntry (h : s.deleteEntry id ifVersion = some s') : IndexOk s' none := by
  obtain ⟨existing, -, h⟩ := Option.bind_eq_some_iff.1 h
  split at h
  case isFalse => cases h
  case isTrue =>
    obtain rfl := Option.some.inj h
    refine ⟨hs.collections_nodup, hs.entries_nodup.sublist (List.filter_sublist.map _),
      fun e he => ?_, fun r hr => ?_, fun r hr => ?_, fun e he hne c hc hid => ?_⟩
    · exact hs.collection e (List.mem_filter.1 he).1
    · obtain ⟨hr, hrid⟩ := List.mem_filter.1 hr
      obtain ⟨e, he, hid⟩ := hs.owner r hr
      exact ⟨e, List.mem_filter.2 ⟨he, by rwa [hid]⟩, hid⟩
    · exact hs.asset r (List.mem_filter.1 hr).1
    · obtain ⟨he, heid⟩ := List.mem_filter.1 he
      have hrows : rowsOf CmsAssetReference.fromEntryId e.id
          (s.assetReferences.filter (·.fromEntryId ≠ id)) =
          rowsOf CmsAssetReference.fromEntryId e.id s.assetReferences := by
        rw [rowsOf, rowsOf, List.filter_filter]
        refine List.filter_congr fun r _ => ?_
        by_cases hr : r.fromEntryId = e.id
        · rw [hr, heid, Bool.and_true]
        · simp [hr]
      rw [CmsOrg.indexedUses, hrows]
      exact hs.indexed e he (by simp) c hc hid

/-! ### Assets -/

/-- Assets that come, and files that arrive, leave the index as it is. -/
theorem IndexOk.assets {assets : List CmsAsset}
    (h : ∀ id, s.hasAsset id = true → assets.any (·.id = id) = true) :
    IndexOk { s with assets := assets } none :=
  { hs with asset := fun r hr => h _ (hs.asset r hr) }

theorem IndexOk.insertAsset {a : CmsAsset} (h : s.insertAsset a = some s') : IndexOk s' none := by
  rw [CmsOrg.insertAsset] at h
  split at h
  case isTrue => cases h
  case isFalse =>
    obtain rfl := Option.some.inj h
    refine hs.assets fun id hid => ?_
    rw [List.any_append, Bool.or_eq_true]
    exact .inl hid

theorem IndexOk.completeAssetUpload (h : s.completeAssetUpload id = some s') : IndexOk s' none := by
  rw [CmsOrg.completeAssetUpload] at h
  split at h
  case isFalse => cases h
  case isTrue =>
    obtain rfl := Option.some.inj h
    refine hs.assets fun x hx => ?_
    obtain ⟨a, ha, hax⟩ := List.any_eq_true.1 hx
    refine List.any_eq_true.2 ⟨_, List.mem_map_of_mem ha, ?_⟩
    split <;> exact hax

theorem IndexOk.deleteAsset {elsewhere : Bool}
    (h : s.deleteAsset id elsewhere = some s') : IndexOk s' none := by
  rw [CmsOrg.deleteAsset] at h
  split at h
  case isFalse => cases h
  case isTrue hchecks =>
    obtain rfl := Option.some.inj h
    have hunused : ∀ r ∈ s.assetReferences, r.use.assetId ≠ id := by
      intro r hr
      have hnone := List.filter_eq_nil_iff.1 hchecks.2.1 r hr
      simpa using hnone
    have hrows : s.assetReferences.filter (·.use.assetId ≠ id) = s.assetReferences :=
      List.filter_eq_self.2 fun r hr => decide_eq_true (hunused r hr)
    rw [hrows]
    refine { hs with asset := fun r hr => ?_ }
    obtain ⟨a, ha, hid⟩ := List.any_eq_true.1 (hs.asset r hr)
    refine List.any_eq_true.2 ⟨a, List.mem_filter.2 ⟨ha, ?_⟩, hid⟩
    rw [of_decide_eq_true hid]
    exact decide_eq_true (hunused r hr)

theorem IndexOk.step {op : CmsOp} (hkeeps : KeepsUses s op)
    (h : s.step parses op = some s') : IndexOk s' none := by
  cases op with
  | createCollection id slug fields => exact hs.createCollection h
  | updateCollection x fields => exact hs.updateCollection hkeeps h
  | deleteCollection x => exact hs.deleteCollection h
  | createEntry id x slug locale data published now check => exact hs.createEntry h
  | updateEntry id ifVersion data edits slug locale check => exact hs.updateEntry hkeeps h
  | restoreVersion id version ifVersion => exact hs.restoreVersion hkeeps h
  | transition id ifVersion w now => exact hs.transition h
  | deleteEntry id ifVersion => exact hs.deleteEntry h
  | requestAssetUpload id => exact hs.insertAsset h
  | uploadAsset id => exact hs.insertAsset h
  | completeAssetUpload id => exact hs.completeAssetUpload h
  | deleteAsset id elsewhere => exact hs.deleteAsset h

end Keeps

end Invariant

theorem indexOk_of_reaches {parses : String → Bool} {s : CmsOrg}
    (h : (cmsOrgMachine parses).Reaches CmsOrg.IsNew KeepsUses s) : IndexOk s none := by
  refine h.invariant (I := (IndexOk · none)) ?_ fun u v a _ hu hkeeps hstep => hu.step hkeeps hstep
  rintro _ rfl
  exact ⟨.nil, .nil, fun e he => absurd he List.not_mem_nil, fun r hr => absurd hr List.not_mem_nil,
    fun r hr => absurd hr List.not_mem_nil, fun e he => absurd he List.not_mem_nil⟩

/-- The index has a row for an asset just if an entry uses it. -/
theorem IndexOk.listAssetUsage_eq_nil {s : CmsOrg} (hs : IndexOk s none) (id : String) :
    s.listAssetUsage id = [] ↔ ¬ s.Uses id := by
  have hexact := hs.exact
  rw [CmsOrg.listAssetUsage, List.filter_eq_nil_iff]
  constructor
  · rintro h ⟨e, he, use, huse, hid⟩
    obtain ⟨r, hr, rfl⟩ := List.mem_map.1 ((hexact e he).mem_iff.2 huse)
    exact h r (mem_rowsOf.1 hr).1 (decide_eq_true hid)
  · intro h r hr hid
    obtain ⟨e, he, hre⟩ := hs.owner r hr
    refine h ⟨e, he, r.use, (hexact e he).mem_iff.1 ?_, of_decide_eq_true hid⟩
    exact List.mem_map_of_mem (mem_rowsOf.2 ⟨hr, hre.symm⟩)

/-- **The index is exact, and an asset is deleted just if nothing uses it**, in a run in which new
fields leave the uses of every entry as they are, and so do updates with the hash of the last
write. -/
theorem asset_index_exact (parses : String → Bool) {s : CmsOrg}
    (h : (cmsOrgMachine parses).Reaches CmsOrg.IsNew KeepsUses s) :
    s.Indexed ∧ ∀ id usedElsewhere, s.hasAsset id = true →
      ((s.deleteAsset id usedElsewhere).isSome ↔ ¬ s.Uses id ∧ usedElsewhere = false) := by
  have hs := indexOk_of_reaches h
  refine ⟨hs.exact, fun id usedElsewhere hid => ?_⟩
  rw [CmsOrg.deleteAsset, ← hs.listAssetUsage_eq_nil id]
  simp [hid]

/-! ### New fields -/

/-- The fields of pages: a text that has no marks in it. -/
def pageFields : List FieldDef := [{ name := "body", type := .text }]

/-- The same field as a prose. -/
def proseFields : List FieldDef := [{ name := "body", type := .markdown }]

/-- The data of a page with a picture in it. -/
def pageData : JsonObject := [("body", .str "asset://a")]

/-- A page is written while its body is a text, and then its body becomes a prose. -/
def bodyBecomesProse : List CmsOp :=
  [.createCollection "c" "pages" pageFields, .uploadAsset "a",
    .createEntry "e" "pages" "p" "en" pageData false 0 true, .updateCollection "pages" proseFields]

/-- **New fields leave the index as it is**: the page uses the picture now, the index does not say
so, and the picture is deleted. -/
theorem field_change_unindexed : ∃ s, (cmsOrgMachine fun _ => true).Reachable CmsOrg.IsNew s ∧
    ¬ s.Indexed ∧ s.Uses "a" ∧ (s.deleteAsset "a" false).isSome := by
  have hrun : ((cmsOrgMachine fun _ => true).run {} bodyBecomesProse).map (fun s =>
      (s.entries.map (fun e => (e.id, s.usesOf e)), s.indexedUses "e",
        (s.deleteAsset "a" false).isSome)) =
      some ([("e", [⟨"body", "a", 0, .inline⟩])], [], true) := by decide +kernel
  obtain ⟨s, hs, hview⟩ := Option.map_eq_some_iff.1 hrun
  obtain ⟨huses, hview⟩ := Prod.mk.inj hview
  obtain ⟨hindex, hdeleted⟩ := Prod.mk.inj hview
  obtain ⟨e, he, hpage⟩ : ∃ e ∈ s.entries,
      (e.id, s.usesOf e) = ("e", [⟨"body", "a", 0, .inline⟩]) :=
    List.mem_map.1 (huses ▸ List.mem_singleton_self _)
  obtain ⟨hid, hpage⟩ := Prod.mk.inj hpage
  refine ⟨s, Machine.reachable_of_run rfl hs, fun hexact => ?_,
    ⟨e, he, ⟨"body", "a", 0, .inline⟩, ?_, rfl⟩, hdeleted⟩
  · have hperm := hexact e he
    rw [hid, hindex, hpage] at hperm
    exact List.not_perm_nil_cons _ _ hperm
  · rw [hpage]
    exact List.mem_singleton_self _

/-- A page is written while its body is a prose, gets another field, and is edited. -/
def pageInProse : List CmsOp :=
  [.createCollection "c" "pages" proseFields, .uploadAsset "a",
    .createEntry "e" "pages" "p" "en" pageData false 0 true,
    .updateCollection "pages" (some (proseFields ++ [{ name := "title", type := .text }])),
    .updateEntry "e" 1 (some [("title", .str "t")]) none none none true]

/-- The index says that the page uses the picture, and the picture stays. -/
theorem asset_index_exact_sample : ∃ s,
    (cmsOrgMachine fun _ => true).Reaches CmsOrg.IsNew KeepsUses s ∧ s.Indexed ∧
      s.deleteAsset "a" false = none := by
  have hrun : ((cmsOrgMachine fun _ => true).runUnder KeepsUses {} pageInProse).map (fun s =>
      (s.hasAsset "a", (s.deleteAsset "a" false).isNone)) = some (true, true) := by decide +kernel
  obtain ⟨s, hs, hview⟩ := Machine.exists_reaches_of_runUnder
    (show CmsOrg.IsNew {} from rfl) hrun
  obtain ⟨-, hkept⟩ := Prod.mk.inj hview
  exact ⟨s, hs, (asset_index_exact _ hs).1, Option.isNone_iff_eq_none.1 hkept⟩

end Munin
