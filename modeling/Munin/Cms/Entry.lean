import Munin.Foundations.Instant
import Munin.Foundations.Json
import Munin.Foundations.Machine
import Munin.Foundations.VersionLog

/-!
# CMS entries and their versions

An entry has a version, and each change of it writes a snapshot under the next number. Requests name
the version that they are about; a worker publishes entries whose schedule is due. All of them read
the entry, update it by its id, and insert the snapshot, which a unique index keeps from having the
number of another one.

* **`CmsEntry`, `CmsEntryVersion`** — the entry and its snapshots.
* **`CmsRequest.load`** — what a request makes of the entry that it reads.
* **`CmsWrite.set`, `CmsWrite.snapshot`** — what it writes then.
* **`CmsMove`, `cmsMachine`** — the statements of any number of transactions on one entry.

Columns that follow from the others (hash, search text, embedding, who and when) and the links of
translations are left out; edits of blocks and texts, and the checks of the data, are a parameter of
the request.
-/

namespace Munin

open Foundations

/-- The fields of a JSON object. -/
abbrev JsonObject := List (String × Json)

/-- `{ ...a, ...b }`. -/
def spread (a b : JsonObject) : JsonObject :=
  a.map (fun (key, value) => (key, (b.lookup key).getD value)) ++
    b.filter fun (key, _) => !a.any (·.1 = key)

/-- `ENTRY_STATUSES`. -/
inductive CmsEntryStatus where
  | draft
  | scheduled
  | published
  | archived
  deriving DecidableEq

/-- A row of `cms_entry_versions`. -/
structure CmsEntryVersion where
  version : ℕ
  status : CmsEntryStatus
  data : JsonObject

/-- A row of `cms_entries`. -/
structure CmsEntry where
  slug : String
  locale : String
  status : CmsEntryStatus := .draft
  data : JsonObject
  version : ℕ := 1
  scheduledAt : Option Instant := none
  publishedAt : Option Instant := none
  archivedAt : Option Instant := none
  dismissReason : Option String := none

/-- What `snapshotVersion` inserts. -/
def CmsEntry.snapshot (e : CmsEntry) : CmsEntryVersion := ⟨e.version, e.status, e.data⟩

/-- What is going to be written of an entry that was read. -/
inductive CmsWrite where
  | edit (slug locale : String) (data : JsonObject)
  | transition (status : CmsEntryStatus) (scheduledAt publishedAt : Option Instant)
    (reason : Option String)
  | promote

/-- The update of the row `current`, for an entry that was read as `existing`. -/
def CmsWrite.set (existing : CmsEntry) (now : Instant) (current : CmsEntry) : CmsWrite → CmsEntry
  | .edit slug locale data =>
    { current with slug := slug, locale := locale, data := data, version := existing.version + 1 }
  | .transition .published _ publishedAt _ =>
    { current with
      status := .published
      version := existing.version + 1
      publishedAt := some (publishedAt.getD now)
      scheduledAt := none
      archivedAt := none }
  | .transition .scheduled scheduledAt _ _ =>
    { current with
      status := .scheduled
      version := existing.version + 1
      scheduledAt := scheduledAt
      archivedAt := none }
  | .transition .draft _ _ _ =>
    { current with
      status := .draft
      version := existing.version + 1
      publishedAt := none
      scheduledAt := none
      archivedAt := none }
  | .transition .archived _ _ reason =>
    { current with
      status := .archived
      version := existing.version + 1
      scheduledAt := none
      archivedAt := some now
      dismissReason := reason }
  | .promote =>
    { current with
      status := .published
      publishedAt := some now
      scheduledAt := none
      version := existing.version + 1 }

/-- The snapshot that goes with it: the worker takes it from the entry as it read it. -/
def CmsWrite.snapshot (existing updated : CmsEntry) : CmsWrite → CmsEntryVersion
  | .promote => ⟨existing.version + 1, .published, existing.data⟩
  | .edit .. | .transition .. => updated.snapshot

/-! ### Requests -/

/-- A request for the entry, and the worker's turn. -/
inductive CmsRequest where
  | update (ifVersion : ℕ) (slug locale : Option String) (data : Option JsonObject)
    (edits : JsonObject → Option JsonObject)
  | transition (ifVersion : ℕ) (status : CmsEntryStatus) (scheduledAt publishedAt : Option Instant)
    (reason : Option String)
  | restore (ifVersion version : ℕ)
  | promote

/-- How far a transaction has come. -/
inductive CmsCall where
  | restoring (ifVersion version : ℕ)
  | restoreWith (ifVersion : ℕ) (data : JsonObject)
  | loaded (write : CmsWrite) (existing : CmsEntry)
  | written (write : CmsWrite) (existing updated : CmsEntry)
  | snapshotted (write : CmsWrite) (existing updated : CmsEntry)

/-- What a request does with the entry that it reads; `none` if it is refused. -/
def CmsRequest.load (now : Instant) (existing : CmsEntry) : CmsRequest → Option CmsCall
  | .update ifVersion slug locale data edits =>
    if existing.version = ifVersion then
      (edits (match data with
        | some d => spread existing.data d
        | none => existing.data)).map fun newData =>
        .loaded (.edit (slug.getD existing.slug) (locale.getD existing.locale) newData) existing
    else none
  | .transition ifVersion status scheduledAt publishedAt reason =>
    if existing.version = ifVersion ∧ (status = .scheduled → scheduledAt.any (now < ·)) then
      some (.loaded (.transition status scheduledAt publishedAt reason) existing)
    else none
  | .restore ifVersion version =>
    if existing.version = ifVersion then some (.restoring ifVersion version) else none
  | .promote =>
    if existing.status = .scheduled ∧ existing.scheduledAt.any (· ≤ now) then
      some (.loaded .promote existing)
    else none

/-! ### Transactions on the entry -/

/-- The entry with its versions, and the transactions that are open. -/
structure CmsState where
  store : VersionLog CmsEntry CmsEntryVersion
  calls : ℕ → Option CmsCall := fun _ => none

namespace CmsState

variable (s : CmsState)

/-- A transaction, further on. -/
def goTo (call : ℕ) (c : Option CmsCall) : ℕ → Option CmsCall :=
  Function.update s.calls call c

/-- A transaction is taken back. -/
def rollback (call : ℕ) : CmsState :=
  { store := s.store.abort call, calls := s.goTo call none }

end CmsState

/-- A statement of a transaction, or its end. -/
inductive CmsMove where
  | load (call : ℕ) (request : CmsRequest) (now : Instant)
  | readTarget (call : ℕ)
  | reload (call : ℕ) (edits : JsonObject → Option JsonObject)
  | write (call : ℕ) (now : Instant)
  | snapshot (call : ℕ)
  | commit (call : ℕ)
  | abort (call : ℕ)

/-- One statement. A statement that waits for the lock of the row is no step; one that fails takes
its transaction back. -/
def CmsState.step (s : CmsState) : CmsMove → Option CmsState
  | .load call request now =>
    match s.calls call with
    | none =>
      ((s.store.read call).bind (request.load now ·)).map fun c =>
        { s with calls := s.goTo call (some c) }
    | some _ => none
  | .readTarget call =>
    match s.calls call with
    | some (.restoring ifVersion version) =>
      ((s.store.readLog call).find? (·.version = version)).map fun target =>
        { s with calls := s.goTo call (some (.restoreWith ifVersion target.data)) }
    | _ => none
  | .reload call edits =>
    -- `restoreVersion` goes on as an update with the data of the version
    match s.calls call with
    | some (.restoreWith ifVersion data) =>
      ((s.store.read call).bind fun existing =>
        (CmsRequest.update ifVersion none none (some data) edits).load 0 existing).map fun c =>
          { s with calls := s.goTo call (some c) }
    | _ => none
  | .write call now =>
    match s.calls call with
    | some (.loaded w existing) =>
      (s.store.update call fun current => w.set existing now current).map fun
        | (store, some updated) =>
          { store := store, calls := s.goTo call (some (.written w existing updated)) }
        | (_, none) => s.rollback call
    | _ => none
  | .snapshot call =>
    match s.calls call with
    | some (.written w existing updated) =>
      (s.store.record call CmsEntryVersion.version (w.snapshot existing updated)).map fun
        | (store, true) =>
          { store := store, calls := s.goTo call (some (.snapshotted w existing updated)) }
        | (_, false) => s.rollback call
    | _ => none
  | .commit call =>
    match s.calls call with
    | some (.snapshotted ..) =>
      some { store := s.store.commit call, calls := s.goTo call none }
    | _ => none
  | .abort call =>
    match s.calls call with
    | some _ => some (s.rollback call)
    | none => none

/-- The transactions on one entry. -/
def cmsMachine : Machine CmsState CmsMove := ⟨CmsState.step⟩

/-- `createEntry` has committed the entry with its first version. -/
def CmsState.Created (s : CmsState) : Prop :=
  ∃ e : CmsEntry, e.version = 1 ∧ s = { store := { row := some e, log := [e.snapshot] } }

end Munin
