import Munin.Common
import Munin.Foundations.Instant
import Mathlib.Data.List.Nodup

/-!
# Deliverability of addresses

Whether mail can reach an address is kept in a row for each organisation and address. Failures are
counted in it, people mark it, and it is cleared again.

* **`nextDeliverability`** — what a failure makes of the state.
* **`AddressDeliverabilityService`** — the service, which loads the row of an address and writes it
  back; `DeliverabilityEvent.exec` is one call of it, and `own_exec` what it does to a row.
* **`Deliverabilities`** — the table, with at most one row for an organisation and an address;
  `own_upsert` is what a write does to it.

The service asks for the row by address only, and leaves the organisation to row-level security:
`RequestScope.sees`. The rows that this admits may be several, of which `LimitOne` is any.
-/

namespace Munin

open Foundations

/-! ### States and signals -/

/-- `ADDRESS_DELIVERABILITY_STATES`. -/
inductive AddressDeliverabilityState where
  | valid
  | softFailing
  | undeliverable
  deriving DecidableEq

/-- `ADDRESS_DELIVERABILITY_REASONS`. -/
inductive AddressDeliverabilityReason where
  | hardBounce
  | smtpRejected
  | deliveryDead
  | noReplyNotice
  | repeatedSoftFailure
  | manual
  | cleared

def AddressDeliverabilityReason.text : AddressDeliverabilityReason → String
  | .hardBounce => "hard_bounce"
  | .smtpRejected => "smtp_rejected"
  | .deliveryDead => "delivery_dead"
  | .noReplyNotice => "no_reply_notice"
  | .repeatedSoftFailure => "repeated_soft_failure"
  | .manual => "manual"
  | .cleared => "cleared"

/-- `DeliverabilitySeverity`. -/
inductive DeliverabilitySeverity where
  | hard
  | soft
  deriving DecidableEq

def DeliverabilitySeverity.text : DeliverabilitySeverity → String
  | .hard => "hard"
  | .soft => "soft"

def SOFT_FAILURE_WINDOW_DAYS : ℤ := 30
def SOFT_FAILURES_BEFORE_UNDELIVERABLE : ℕ := 3
def SOFT_FAILURE_WINDOW_MS : ℤ := SOFT_FAILURE_WINDOW_DAYS * 24 * 60 * 60 * 1000

/-- `DeliverabilitySnapshot`. -/
structure DeliverabilitySnapshot where
  state : AddressDeliverabilityState
  reason : Option AddressDeliverabilityReason
  failureCount : ℕ
  lastFailureAt : Option Instant

/-- `DeliverabilitySignal`. -/
structure DeliverabilitySignal where
  severity : DeliverabilitySeverity
  reason : AddressDeliverabilityReason

/-- `DeliverabilityTransition`. -/
structure DeliverabilityTransition where
  state : AddressDeliverabilityState
  reason : AddressDeliverabilityReason
  failureCount : ℕ

/-- `withinWindow`: the last failure is not longer ago than the window. -/
def withinWindow (current : Option DeliverabilitySnapshot) (now : Instant) : Bool :=
  match current.bind (·.lastFailureAt) with
  | none => false
  | some last => now - last ≤ SOFT_FAILURE_WINDOW_MS

/-- `nextDeliverability`. -/
def nextDeliverability (current : Option DeliverabilitySnapshot) (signal : DeliverabilitySignal)
    (now : Instant) : DeliverabilityTransition :=
  let failureCount :=
    (if withinWindow current now then (current.map (·.failureCount)).getD 0 else 0) + 1
  if signal.severity = .hard then
    { state := .undeliverable, reason := signal.reason, failureCount }
  else if current.map (·.state) = some .undeliverable then
    { state := .undeliverable, reason := (current.bind (·.reason)).getD signal.reason, failureCount }
  else if SOFT_FAILURES_BEFORE_UNDELIVERABLE ≤ failureCount then
    { state := .undeliverable, reason := .repeatedSoftFailure, failureCount }
  else { state := .softFailing, reason := signal.reason, failureCount }

/-! ### Addresses -/

/-- What stands between the first angle brackets that enclose anything. -/
def bracketed : List Char → Option (List Char)
  | [] => none
  | c :: cs =>
    let inner := cs.takeWhile (· ≠ '>')
    if c = '<' ∧ inner ≠ [] ∧ inner.length < cs.length then some inner else bracketed cs

/-- A text without a leading `mailto:` in any case. -/
def withoutMailto (cs : List Char) : List Char :=
  if (cs.take 7).map Char.toLower = "mailto:".toList then cs.drop 7 else cs

/-- `/^[^\s@]+@[^\s@.]+\.[^\s@]+$/`. -/
def isEmailAddress (cs : List Char) : Bool :=
  let plain (c : Char) : Bool := !isJsBlank c && c != '@'
  match cs.takeWhile plain, cs.dropWhile plain with
  | _ :: _, '@' :: domain =>
    let label (c : Char) : Bool := plain c && c != '.'
    match domain.takeWhile label, domain.dropWhile label with
    | _ :: _, '.' :: c :: rest => (c :: rest).all plain
    | _, _ => false
  | _, _ => false

/-- `normalizeAddress`. -/
def normalizeAddress (toLowerCase : String → String) (raw : Option String) : Option String :=
  raw.bind fun raw =>
    let inner := (bracketed raw.toList).elim raw .ofList
    let trimmed := toLowerCase (.ofList (withoutMailto (jsTrim inner).toList))
    if trimmed = "" ∨ 320 < jsLength trimmed then none
    else if isEmailAddress trimmed.toList then some trimmed else none

example : normalizeAddress (fun s => .ofList (s.toList.map Char.toLower))
    (some "  <MAILTO:Ola.Nordmann@Example.NO> ") = some "ola.nordmann@example.no" := by
  decide +kernel

/-! ### The table -/

/-- A row of `crm_address_deliverability`. -/
structure DeliverabilityRow where
  orgId : String
  address : String
  state : AddressDeliverabilityState
  reason : Option AddressDeliverabilityReason
  evidence : Record
  failureCount : ℕ
  firstFailureAt : Option Instant
  lastFailureAt : Option Instant
  stateChangedAt : Instant

/-- `toSnapshot`. -/
def DeliverabilityRow.toSnapshot (row : DeliverabilityRow) : DeliverabilitySnapshot :=
  ⟨row.state, row.reason, row.failureCount, row.lastFailureAt⟩

/-- The columns of the unique index. -/
def DeliverabilityRow.key (row : DeliverabilityRow) : String × String :=
  (row.orgId, row.address)

/-- The table, under its unique index. -/
structure Deliverabilities where
  rows : List DeliverabilityRow := []
  unique : (rows.map (·.key)).Nodup := by simp

/-- The row of an organisation and an address. -/
def Deliverabilities.own (db : Deliverabilities) (orgId address : String) :
    Option DeliverabilityRow :=
  db.rows.find? (·.key = (orgId, address))

/-- The scope of a request: the organisation of its actor, and whether it bypasses row-level
security, as the workers do. -/
structure RequestScope where
  orgId : String
  bypassRls : Bool

/-- The policy `tenant_isolation`, for a request that is not an end user's. -/
def RequestScope.sees (scope : RequestScope) (row : DeliverabilityRow) : Bool :=
  scope.bypassRls || row.orgId = scope.orgId

/-- A `LIMIT 1` without an order: any row of those there are. -/
structure LimitOne (α : Type*) where
  pick : List α → Option α
  mem : ∀ {l a}, pick l = some a → a ∈ l
  isSome : ∀ {l}, l ≠ [] → (pick l).isSome = true

/-- The first row, for one. -/
def LimitOne.first {α : Type*} : LimitOne α where
  pick := List.head?
  mem h := List.mem_of_mem_head? h
  isSome h := List.isSome_head?.2 h

/-- `loadForUpdate`. -/
def loadForUpdate (limit : LimitOne DeliverabilityRow) (scope : RequestScope) (address : String)
    (db : Deliverabilities) : Option DeliverabilityRow :=
  limit.pick (db.rows.filter fun row => scope.sees row && row.address = address)

/-- An upsert: the row of its key, or a further one. -/
def upsertRow (row : DeliverabilityRow) (rows : List DeliverabilityRow) :
    List DeliverabilityRow :=
  if row.key ∈ rows.map (·.key) then rows.map fun r => if r.key = row.key then row else r
  else rows ++ [row]

/-- Replacing the row of a key leaves the keys. -/
theorem key_replace (row r : DeliverabilityRow) :
    (if r.key = row.key then row else r).key = r.key := by
  by_cases hr : r.key = row.key
  · rw [if_pos hr, hr]
  · rw [if_neg hr]

variable {rows : List DeliverabilityRow} {db : Deliverabilities} {address : String}

theorem unique_upsertRow (row : DeliverabilityRow)
    (h : (rows.map (·.key)).Nodup) : ((upsertRow row rows).map (·.key)).Nodup := by
  unfold upsertRow
  split
  · have hkeys : (rows.map fun r => if r.key = row.key then row else r).map (·.key) =
        rows.map (·.key) := by
      rw [List.map_map]
      exact List.map_congr_left fun r _ => key_replace row r
    rwa [hkeys]
  · next hnew =>
    rw [List.map_append, List.map_singleton]
    refine List.nodup_append.2 ⟨h, List.nodup_singleton _, fun a ha b hb hab => hnew ?_⟩
    exact List.mem_singleton.1 hb ▸ hab ▸ ha

/-- The rows after an upsert. -/
theorem mem_upsertRow {row r : DeliverabilityRow} :
    r ∈ upsertRow row rows ↔ r = row ∨ r ∈ rows ∧ r.key ≠ row.key := by
  unfold upsertRow
  split
  · next hold =>
    rw [List.mem_map]
    constructor
    · rintro ⟨a, ha, rfl⟩
      by_cases hkey : a.key = row.key
      · exact Or.inl (if_pos hkey)
      · rw [if_neg hkey]
        exact Or.inr ⟨ha, hkey⟩
    · rintro (rfl | ⟨hr, hkey⟩)
      · obtain ⟨a, ha, hkey⟩ := List.mem_map.1 hold
        exact ⟨a, ha, if_pos hkey⟩
      · exact ⟨r, hr, if_neg hkey⟩
  · next hnew =>
    rw [List.mem_append, List.mem_singleton, or_comm]
    refine or_congr_right ⟨fun hr => ⟨hr, fun hkey => hnew ?_⟩, And.left⟩
    exact List.mem_map.2 ⟨r, hr, hkey⟩

/-- `write`. -/
def Deliverabilities.upsert (db : Deliverabilities) (row : DeliverabilityRow) : Deliverabilities where
  rows := upsertRow row db.rows
  unique := unique_upsertRow row db.unique

/-- The row of an organisation and an address is the only one. -/
theorem own_eq_some_iff {orgId : String} {row : DeliverabilityRow} :
    db.own orgId address = some row ↔ row ∈ db.rows ∧ row.key = (orgId, address) := by
  constructor
  · exact fun h => ⟨List.mem_of_find?_eq_some h, by simpa using List.find?_some h⟩
  · rintro ⟨hrow, hkey⟩
    have hfound : (db.own orgId address).isSome = true :=
      List.find?_isSome.2 ⟨row, hrow, decide_eq_true hkey⟩
    obtain ⟨r, hr⟩ := Option.isSome_iff_exists.1 hfound
    have hrkey : r.key = (orgId, address) := by simpa using List.find?_some hr
    obtain rfl : r = row := List.inj_on_of_nodup_map db.unique (List.mem_of_find?_eq_some hr) hrow
      (hrkey.trans hkey.symm)
    exact hr

theorem own_eq_none_iff {orgId : String} :
    db.own orgId address = none ↔ ∀ row ∈ db.rows, row.key ≠ (orgId, address) := by
  simp [Deliverabilities.own]

/-- **A write sets the row of its organisation and address**, and leaves the others. -/
theorem own_upsert (db : Deliverabilities) (row : DeliverabilityRow) (orgId address : String) :
    (db.upsert row).own orgId address =
      if row.key = (orgId, address) then some row else db.own orgId address := by
  by_cases hkey : row.key = (orgId, address)
  · rw [if_pos hkey]
    exact own_eq_some_iff.2 ⟨mem_upsertRow.2 (Or.inl rfl), hkey⟩
  · rw [if_neg hkey]
    refine Option.ext fun r => ?_
    rw [own_eq_some_iff, own_eq_some_iff, Deliverabilities.upsert, mem_upsertRow]
    constructor
    · rintro ⟨rfl | ⟨hr, -⟩, hrkey⟩
      · exact absurd hrkey hkey
      · exact ⟨hr, hrkey⟩
    · rintro ⟨hr, hrkey⟩
      exact ⟨Or.inr ⟨hr, fun h => hkey (h ▸ hrkey)⟩, hrkey⟩

/-- **A load finds the row of its own organisation**, where it sees no other organisation's. -/
theorem loadForUpdate_eq_own {limit : LimitOne DeliverabilityRow} {scope : RequestScope}
    (h : ∀ row ∈ db.rows, scope.sees row = true → row.address = address → row.orgId = scope.orgId) :
    loadForUpdate limit scope address db = db.own scope.orgId address := by
  have hmem (row : DeliverabilityRow) :
      row ∈ (db.rows.filter fun row => scope.sees row && row.address = address) ↔
        row ∈ db.rows ∧ row.key = (scope.orgId, address) := by
    rw [List.mem_filter, Bool.and_eq_true, decide_eq_true_eq]
    refine and_congr_right fun hrow => ⟨fun ⟨hsees, haddress⟩ => ?_, fun hkey => ?_⟩
    · exact Prod.ext (h row hrow hsees haddress) haddress
    · obtain ⟨horg, haddress⟩ := Prod.mk.inj hkey
      exact ⟨by simp [RequestScope.sees, horg], haddress⟩
  unfold loadForUpdate
  cases hown : db.own scope.orgId address with
  | none =>
    refine Option.eq_none_iff_forall_not_mem.2 fun row hrow => ?_
    obtain ⟨hin, hkey⟩ := (hmem row).1 (limit.mem hrow)
    exact own_eq_none_iff.1 hown row hin hkey
  | some own =>
    have hne := List.ne_nil_of_mem ((hmem own).2 (own_eq_some_iff.1 hown))
    obtain ⟨row, hrow⟩ := Option.isSome_iff_exists.1 (limit.isSome hne)
    rw [hrow, ← hown, own_eq_some_iff.2 ((hmem row).1 (limit.mem hrow))]

/-! ### The service -/

/-- The input of `recordFailure`. -/
structure FailureInput where
  address : Option String
  severity : DeliverabilitySeverity
  reason : AddressDeliverabilityReason
  evidence : Record := []

/-- The row that `recordFailure` writes. -/
def failureRow (orgId address : String) (input : FailureInput) (current : Option DeliverabilityRow)
    (now : Instant) : DeliverabilityRow :=
  let transition :=
    nextDeliverability (current.map (·.toSnapshot)) ⟨input.severity, input.reason⟩ now
  { orgId, address
    state := transition.state
    reason := some transition.reason
    evidence := Record.spread input.evidence [("signal", .str input.reason.text),
      ("severity", .str input.severity.text), ("observedAt", .str now.toISOString)]
    failureCount := transition.failureCount
    firstFailureAt := some ((current.bind (·.firstFailureAt)).getD now)
    lastFailureAt := some now
    stateChangedAt := if current.map (·.state) = some transition.state then
      (current.map (·.stateChangedAt)).getD now else now }

/-- The row that `markUndeliverable` writes. -/
def markedRow (orgId address : String) (note : Option String) (current : Option DeliverabilityRow)
    (now : Instant) : DeliverabilityRow where
  orgId := orgId
  address := address
  state := .undeliverable
  reason := some .manual
  evidence := [("signal", .str "manual"), ("note", jsonOrNull note),
    ("observedAt", .str now.toISOString)]
  failureCount := (current.map (·.failureCount)).getD 0 + 1
  firstFailureAt := some ((current.bind (·.firstFailureAt)).getD now)
  lastFailureAt := some now
  stateChangedAt := if current.map (·.state) = some .undeliverable then
    (current.map (·.stateChangedAt)).getD now else now

/-- The row that `clear` writes. -/
def clearedRow (orgId address : String) (note : Option String) (now : Instant) :
    DeliverabilityRow where
  orgId := orgId
  address := address
  state := .valid
  reason := some .cleared
  evidence := [("signal", .str "cleared"), ("note", jsonOrNull note),
    ("observedAt", .str now.toISOString)]
  failureCount := 0
  firstFailureAt := none
  lastFailureAt := none
  stateChangedAt := now

/-- The state that a setter sets: `'valid' | 'undeliverable'`. -/
inductive SettableState where
  | valid
  | undeliverable

/-- `CrmInvalidError`. -/
structure CrmInvalidError where
  message : String

/-- What both setters throw at what is no address. -/
def notAnAddress (address : String) : CrmInvalidError :=
  ⟨"crm_invalid: '" ++ address ++ "' is not an email address"⟩

section Service

variable (toLowerCase : String → String) (limit : LimitOne DeliverabilityRow)

namespace AddressDeliverabilityService

/-- `recordFailure`. -/
def recordFailure (scope : RequestScope) (now : Instant) (input : FailureInput)
    (db : Deliverabilities) : Deliverabilities × Option DeliverabilityRow :=
  match normalizeAddress toLowerCase input.address with
  | none => (db, none)
  | some normalized =>
    let current := loadForUpdate limit scope normalized db
    let row := failureRow scope.orgId normalized input current now
    (db.upsert row, some row)

/-- `markUndeliverable`. -/
def markUndeliverable (scope : RequestScope) (now : Instant) (address : String)
    (note : Option String) (db : Deliverabilities) :
    Except CrmInvalidError (Deliverabilities × DeliverabilityRow) :=
  match normalizeAddress toLowerCase (some address) with
  | none => .error (notAnAddress address)
  | some normalized =>
    let current := loadForUpdate limit scope normalized db
    let row := markedRow scope.orgId normalized note current now
    .ok (db.upsert row, row)

/-- `clear`. -/
def clear (scope : RequestScope) (now : Instant) (address : String) (note : Option String)
    (db : Deliverabilities) : Except CrmInvalidError (Deliverabilities × DeliverabilityRow) :=
  match normalizeAddress toLowerCase (some address) with
  | none => .error (notAnAddress address)
  | some normalized =>
    let row := clearedRow scope.orgId normalized note now
    .ok (db.upsert row, row)

/-- `setState`. -/
def setState (scope : RequestScope) (now : Instant) (address : String) (state : SettableState)
    (note : Option String) (db : Deliverabilities) :
    Except CrmInvalidError (Deliverabilities × DeliverabilityRow) :=
  match state with
  | .valid => clear toLowerCase scope now address note db
  | .undeliverable => markUndeliverable toLowerCase limit scope now address note db

end AddressDeliverabilityService

/-- A call of the service. -/
inductive DeliverabilityCall where
  | recordFailure (input : FailureInput)
  | setState (address : String) (state : SettableState) (note : Option String)

/-- The address that a call is about, as it stands in the table. -/
def DeliverabilityCall.normalized : DeliverabilityCall → Option String
  | .recordFailure input => normalizeAddress toLowerCase input.address
  | .setState address _ _ => normalizeAddress toLowerCase (some address)

/-- A call in a request's scope, at a moment. -/
structure DeliverabilityEvent where
  scope : RequestScope
  now : Instant
  call : DeliverabilityCall

/-- What a call does to the table; one that throws leaves it. -/
def DeliverabilityEvent.exec (e : DeliverabilityEvent) (db : Deliverabilities) : Deliverabilities :=
  match e.call with
  | .recordFailure input =>
    (AddressDeliverabilityService.recordFailure toLowerCase limit e.scope e.now input db).1
  | .setState address state note =>
    match AddressDeliverabilityService.setState toLowerCase limit e.scope e.now address state note db with
    | .ok (db', _) => db'
    | .error _ => db

/-- One call after the other. -/
def runDeliverability (events : List DeliverabilityEvent) (db : Deliverabilities) :
    Deliverabilities :=
  events.foldl (fun db e => e.exec toLowerCase limit db) db

/-- Whether a call is about an organisation's state of an address. -/
def DeliverabilityEvent.Concerns (e : DeliverabilityEvent) (orgId address : String) :
    Prop :=
  e.scope.orgId = orgId ∧ e.call.normalized toLowerCase = some address

instance (e : DeliverabilityEvent) (orgId address : String) :
    Decidable (e.Concerns toLowerCase orgId address) := inferInstanceAs (Decidable (_ ∧ _))

/-- The row that a call writes, given the one that it loads. -/
def DeliverabilityEvent.row (e : DeliverabilityEvent) (address : String)
    (current : Option DeliverabilityRow) : DeliverabilityRow :=
  match e.call with
  | .recordFailure input => failureRow e.scope.orgId address input current e.now
  | .setState _ .undeliverable note => markedRow e.scope.orgId address note current e.now
  | .setState _ .valid note => clearedRow e.scope.orgId address note e.now

variable {toLowerCase limit}

theorem runDeliverability_cons (e : DeliverabilityEvent) (es : List DeliverabilityEvent)
    (db : Deliverabilities) : runDeliverability toLowerCase limit (e :: es) db =
      runDeliverability toLowerCase limit es (e.exec toLowerCase limit db) :=
  rfl

variable {e : DeliverabilityEvent}

/-- **A call on an address writes its row**, and one on no address nothing. -/
theorem exec_eq (e : DeliverabilityEvent) (db : Deliverabilities) :
    e.exec toLowerCase limit db = match e.call.normalized toLowerCase with
      | none => db
      | some address => db.upsert (e.row address (loadForUpdate limit e.scope address db)) := by
  obtain ⟨scope, now, call⟩ := e
  cases call with
  | recordFailure input =>
    simp only [DeliverabilityCall.normalized, DeliverabilityEvent.exec,
      AddressDeliverabilityService.recordFailure, DeliverabilityEvent.row]
    cases normalizeAddress toLowerCase input.address <;> rfl
  | setState address state note =>
    simp only [DeliverabilityCall.normalized, DeliverabilityEvent.exec, DeliverabilityEvent.row,
      AddressDeliverabilityService.setState, AddressDeliverabilityService.clear,
      AddressDeliverabilityService.markUndeliverable]
    cases state <;> cases normalizeAddress toLowerCase (some address) <;> rfl

theorem key_row (e : DeliverabilityEvent) (address : String) (current : Option DeliverabilityRow) :
    (e.row address current).key = (e.scope.orgId, address) := by
  obtain ⟨scope, now, call⟩ := e
  cases call with
  | recordFailure input => rfl
  | setState _ state note => cases state <;> rfl

/-- What a call does to the row of an organisation and an address. -/
theorem own_exec (e : DeliverabilityEvent) (db : Deliverabilities) (orgId address : String) :
    (e.exec toLowerCase limit db).own orgId address =
      if e.Concerns toLowerCase orgId address then
        some (e.row address (loadForUpdate limit e.scope address db))
      else db.own orgId address := by
  by_cases hconcerns : e.Concerns toLowerCase orgId address
  · rw [if_pos hconcerns]
    obtain ⟨rfl, hcall⟩ := hconcerns
    rw [exec_eq, hcall, own_upsert, key_row, if_pos rfl]
  · rw [if_neg hconcerns]
    cases hcall : e.call.normalized toLowerCase with
    | none => rw [exec_eq, hcall]
    | some normalized =>
      rw [exec_eq, hcall, own_upsert, key_row, if_neg fun h => hconcerns ?_]
      obtain ⟨horg, rfl⟩ := Prod.mk.inj h
      exact ⟨horg, hcall⟩

end Service

end Munin
