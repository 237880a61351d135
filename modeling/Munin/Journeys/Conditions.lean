import Mathlib.Data.List.Find
import Mathlib.Data.List.Infix
import Mathlib.Data.List.Sort
import Munin.Journeys.Runtime.Execute
import Munin.Outreach.SendPolicy

/-!
# Conditions

A journey branches on conditions: fields, tags, segments, times, and events in the history of a
contact or a company. The runtime does not load the whole history. It goes through the conditions
first, notes for each name of an event the highest count that any of them asks for, and loads that
many of the most recent ones.

* **`evaluateCondition`** — what a condition says of facts.
* **`collectConditionNeeds`** — what it needs of the history.
* **`conditionFacts`**, **`fullFacts`** — the facts as they are loaded, and with the whole history.
* **`countP_take_of_pairwise`** — of the most recent rows, as many count as of all, up to their number.
* **`evaluate_loaded`** — the conditions say of the loaded facts what they say of the whole.
-/

namespace Munin

open Foundations

/-! ### Values -/

/-- The value of a column or of a place in it. -/
inductive FieldValue where
  | json (value : Json)
  | date (at' : Instant)

/-- A row of `crm_contacts` or `crm_companies`, as the runtime reads it: a record of columns, of
which it uses three itself. -/
structure SubjectRow where
  columns : List (String × FieldValue)
  companyId : Option String := none
  tags : List String := []
  /-- `customFields.timezone`, if it is a text. -/
  timezone : Option String := none

/-- `ConditionFacts`. -/
structure ConditionFacts where
  contact : Option (List (String × FieldValue))
  company : Option (List (String × FieldValue))
  tags : List String
  context : List (String × Json)
  /-- The events, by name and time. -/
  events : List (String × Instant)
  segments : String → Bool
  enteredAt : Instant
  now : Instant
  timezone : String

/-- What JavaScript makes of texts and numbers, for a type of numbers. -/
structure JsCompare (N : Type*) where
  toLowerCase : String → String
  /-- The value of a number. -/
  value : NumberText → N
  /-- The value of a time. -/
  getTime : Instant → N
  /-- `Number` of a decimal text. -/
  number : String → N
  /-- `Date.parse`, if the text is a date. -/
  dateParse : String → Option N

/-! ### Reading -/

/-- A key of a value; only objects have keys, arrays among them. -/
def FieldValue.key : FieldValue → String → Option FieldValue
  | .json (.obj fields), k => (fields.lookup k).map .json
  | .json (.arr items), k =>
    if k = "length" then some (.json (.num (.ofNat items.length)))
    else ((items.zipIdx.find? fun p => toString p.2 = k).map fun p => .json p.1)
  | .json _, _ => none
  | .date _, _ => none

/-- The keys of a path. -/
def pathKeys (keys : List String) : List String := if keys = [] then [""] else keys

/-- `readPath`, from a value on. -/
def readPathOf : Option FieldValue → List String → Option FieldValue
  | current, [] => current
  | none, _ :: _ => none
  | some current, k :: keys => readPathOf (current.key k) keys

/-- `readPath`. -/
def readPath (source : List (String × FieldValue)) (path : List String) : Option FieldValue :=
  match pathKeys path with
  | [] => none
  | k :: keys => readPathOf (source.lookup k) keys

/-- The fields of a value, as a record. -/
def FieldValue.record : FieldValue → List (String × FieldValue)
  | .json (.obj fields) => fields.map fun f => (f.1, .json f.2)
  | _ => []

/-- A column that is there and not `null`. -/
def column (source : List (String × FieldValue)) (k : String) : Option FieldValue :=
  match source.lookup k with
  | some (.json .null) => none
  | v => v

/-- `readField`. -/
def readField (path : String) (facts : ConditionFacts) : Option FieldValue :=
  let keys := path.splitOn "."
  match if keys.head? = some "company" then facts.company else facts.contact with
  | none => none
  | some source =>
    match keys.tail with
    | "custom_fields" :: tail | "customFields" :: tail =>
      readPath (((column source "customFields").or (column source "custom_fields")).elim []
        FieldValue.record) tail
    | rest => readPath source rest

/-! ### Comparing -/

section

variable {N : Type*} [LinearOrder N] (js : JsCompare N)

/-- `looseEqual`; of objects, no two are the same. -/
def looseEqual : Option FieldValue → Option FieldValue → Bool
  | some (.json (.str a)), some (.json (.str b)) => js.toLowerCase a = js.toLowerCase b
  | some (.json (.num a)), some (.json (.num b)) => a = b
  | some (.json (.bool a)), some (.json (.bool b)) => a = b
  | some (.json .null), some (.json .null) => true
  | none, none => true
  | _, _ => false

/-- Digits, and perhaps a point with more digits after it. -/
def isUnsigned (cs : List Char) : Bool :=
  let whole := cs.takeWhile Char.isDigit
  let rest := cs.dropWhile Char.isDigit
  whole ≠ [] && (rest = [] || rest.head? = some '.' && rest.tail ≠ [] && rest.tail.all Char.isDigit)

/-- `orderable`. -/
def orderable : Option FieldValue → Option N
  | some (.json (.num n)) => some (js.value n)
  | some (.date t) => some (js.getTime t)
  | some (.json (.str s)) =>
    let digits := if s.toList.head? = some '-' then s.toList.tail else s.toList
    if isUnsigned digits then some (js.number s) else js.dateParse s
  | _ => none

/-- What is not there, or is empty. -/
def isMissing : Option FieldValue → Bool
  | none | some (.json .null) | some (.json (.str "")) => true
  | _ => false

/-- A comparison of what can be ordered. -/
def ordered (actual expected : Option FieldValue) (p : N → N → Bool) : Bool :=
  match orderable js actual, orderable js expected with
  | some a, some b => p a b
  | _, _ => false

/-- The values of an array. -/
def arrayItems : Option FieldValue → Option (List (Option FieldValue))
  | some (.json (.arr items)) => some (items.map fun v => some (.json v))
  | _ => none

/-- `compare`. -/
def JourneyCondition.compare (actual : Option FieldValue) (op : ConditionOperator) (expected : Option FieldValue) :
    Bool :=
  match op with
  | .exists' => !isMissing actual
  | .notExists => isMissing actual
  | .eq => looseEqual js actual expected
  | .neq => !looseEqual js actual expected
  | .in' => (arrayItems expected).any fun items => items.any (looseEqual js actual)
  | .notIn => (arrayItems expected).all fun items => !items.any (looseEqual js actual)
  | .contains =>
    match actual, expected with
    | some (.json (.arr items)), _ =>
      items.any fun v => looseEqual js (some (.json v)) expected
    | some (.json (.str a)), some (.json (.str b)) =>
      decide ((js.toLowerCase b).toList <:+: (js.toLowerCase a).toList)
    | _, _ => false
  | .gt => ordered js actual expected fun a b => b < a
  | .gte => ordered js actual expected fun a b => b ≤ a
  | .lt => ordered js actual expected fun a b => a < b
  | .lte => ordered js actual expected fun a b => a ≤ b

/-! ### Evaluation -/

/-- `matchesTime`. -/
def matchesTime (localClock : LocalClock) (days : Option (List Weekday)) (between : Option String)
    (now : Instant) (timezone : String) : Bool :=
  let clock := localClock now timezone
  (days.all fun ds => decide (clock.1 ∈ ds)) &&
    (!truthy between || between.any (inTimeWindow clock.2))

/-- Since when events count, if not since ever. -/
def EventSince.instant (facts : ConditionFacts) : EventSince → Instant
  | .entry => facts.enteredAt
  | .days n => facts.now - n * 86400000

/-- Whether an event counts. -/
def eventCounts (facts : ConditionFacts) (name : String) (since : Option EventSince)
    (e : String × Instant) : Bool :=
  e.1 = name && since.all fun s => decide (s.instant facts ≤ e.2)

variable (localClock : LocalClock)

mutual

/-- `evaluateCondition`. -/
def evaluateCondition : JourneyCondition → ConditionFacts → Bool
  | .all cs, facts => evaluateAll cs facts
  | .any cs, facts => evaluateAny cs facts
  | .not c, facts => !evaluateCondition c facts
  | .field field op value, facts =>
    JourneyCondition.compare js (readField field facts) op (value.map .json)
  | .context path op value, facts =>
    JourneyCondition.compare js (readPath (facts.context.map fun f => (f.1, .json f.2)) (path.splitOn ".")) op
      (value.map .json)
  | .tag tag present, facts => decide (tag ∈ facts.tags) == present.getD true
  | .segment segment member, facts => facts.segments segment == member.getD true
  | .event event occurred since minCount, facts =>
    let count := facts.events.countP (eventCounts facts event since)
    let matched := decide (minCount.getD 1 ≤ count)
    if occurred.getD true then matched else !matched
  | .time days between, facts => matchesTime localClock days between facts.now facts.timezone

def evaluateAll : List JourneyCondition → ConditionFacts → Bool
  | [], _ => true
  | c :: cs, facts => evaluateCondition c facts && evaluateAll cs facts

def evaluateAny : List JourneyCondition → ConditionFacts → Bool
  | [], _ => false
  | c :: cs, facts => evaluateCondition c facts || evaluateAny cs facts

end

end

/-! ### What conditions need -/

/-- The counts that are asked for, by the name of an event, as a map keeps them. -/
abbrev EventNeeds := List (String × ℕ)

/-- `needs.events.get(name) ?? 0`. -/
def EventNeeds.get (needs : EventNeeds) (name : String) : ℕ := (needs.lookup name).getD 0

/-- `needs.events.set(name, Math.max(needs.events.get(name) ?? 0, count))`. -/
def EventNeeds.raise (name : String) (count : ℕ) : EventNeeds → EventNeeds
  | [] => [(name, count)]
  | (n, k) :: needs =>
    if name = n then (n, max k count) :: needs else (n, k) :: EventNeeds.raise name count needs

mutual

/-- The events that `collectConditionNeeds` notes; the segments are `segmentIds`. -/
def collectConditionNeeds : JourneyCondition → EventNeeds → EventNeeds
  | .all cs, needs => collectNeedsOf cs needs
  | .any cs, needs => collectNeedsOf cs needs
  | .not c, needs => collectConditionNeeds c needs
  | .event event _ _ minCount, needs => EventNeeds.raise event (minCount.getD 1) needs
  | .field .., needs | .context .., needs | .tag .., needs | .segment .., needs
  | .time .., needs => needs

/-- The events that several conditions need. -/
def collectNeedsOf : List JourneyCondition → EventNeeds → EventNeeds
  | [], needs => needs
  | c :: cs, needs => collectNeedsOf cs (collectConditionNeeds c needs)

end

/-! ### Loading -/

/-- A row of `analytics_product_events`. -/
structure ProductEvent where
  orgId : String
  name : String
  contactId : Option String
  endUserId : Option String
  occurredAt : Instant

/-- The tables, and what decides whether a subject is in a segment. -/
structure ConditionTables where
  orgId : String
  contact : String → Option SubjectRow := fun _ => none
  company : String → Option SubjectRow := fun _ => none
  events : List ProductEvent := []
  contactInSegment : String → String → Bool := fun _ _ => false
  companyInSegment : String → String → Bool := fun _ _ => false
  isValidTimezone : String → Bool := fun _ => true

/-- What is known of the enrollment. -/
structure ConditionSubject where
  contactId : Option String
  endUserId : Option String
  companyId : Option String
  context : List (String × Json)
  enteredAt : Instant
  now : Instant
  /-- `spec.settings.timezone`. -/
  timezone : String

section

variable (tables : ConditionTables) (subject : ConditionSubject)

/-- `wholeCompany`. -/
def ConditionSubject.wholeCompany : Bool :=
  subject.contactId.isNone && subject.endUserId.isNone && subject.companyId.isSome

/-- Whether an event is one of the subject's. -/
def ConditionSubject.owns (e : ProductEvent) : Bool :=
  e.orgId = tables.orgId &&
    (subject.contactId.any (fun id => e.contactId = some id) ||
      subject.endUserId.any (fun id => e.endUserId = some id) ||
      (subject.wholeCompany && e.contactId.any fun id =>
        (tables.contact id).any fun c => c.companyId = subject.companyId))

/-- The whole history, by name and time. -/
def history : List (String × Instant) :=
  (tables.events.filter (subject.owns tables)).map fun e => (e.name, e.occurredAt)

/-- The rows of one name, the most recent ones first. -/
def latestOf (name : String) (rows : List (String × Instant)) : List (String × Instant) :=
  (rows.filter fun e => e.1 = name).insertionSort fun a b => b.2 ≤ a.2

/-- The rows that are loaded. -/
def loadedEvents (needs : EventNeeds) (rows : List (String × Instant)) : List (String × Instant) :=
  needs.flatMap fun (name, count) => (latestOf name rows).take count

/-- Whether the subject is in a segment. -/
def ConditionSubject.inSegment (segmentId : String) : Bool :=
  match subject.contactId with
  | some id => tables.contactInSegment id segmentId
  | none =>
    if subject.wholeCompany then
      subject.companyId.any fun id => tables.companyInSegment id segmentId
    else false

/-- The facts, but for the events and segments. -/
def factsWith (events : List (String × Instant)) (segments : String → Bool) : ConditionFacts :=
  let contact := subject.contactId.bind tables.contact
  let company := (subject.companyId.or (contact.bind (·.companyId))).bind tables.company
  let candidate := (contact.bind (·.timezone)).getD subject.timezone
  { contact := contact.map (·.columns)
    company := company.map (·.columns)
    tags :=
      match contact with
      | some c => c.tags
      | none => if subject.wholeCompany then company.elim [] (·.tags) else []
    context := subject.context
    events, segments
    enteredAt := subject.enteredAt
    now := subject.now
    timezone := if candidate ≠ "" ∧ tables.isValidTimezone candidate then candidate else "UTC" }

/-- `conditionFacts`. -/
def conditionFacts (conditions : List JourneyCondition) : ConditionFacts :=
  factsWith tables subject (loadedEvents (collectNeedsOf conditions []) (history tables subject))
    fun segmentId =>
      decide (segmentId ∈ segmentIdsOf conditions) && subject.inSegment tables segmentId

/-- The facts with the whole history, and every segment. -/
def fullFacts : ConditionFacts :=
  factsWith tables subject (history tables subject) (subject.inSegment tables)

end

/-! ### What is noted -/

mutual

/-- The counts that the events of a condition ask for. -/
def JourneyCondition.eventAsks : JourneyCondition → List (String × ℕ)
  | .all cs => eventAsksOf cs
  | .any cs => eventAsksOf cs
  | .not c => c.eventAsks
  | .event event _ _ minCount => [(event, minCount.getD 1)]
  | .field .. | .context .. | .tag .. | .segment .. | .time .. => []

/-- Those of several conditions. -/
def eventAsksOf : List JourneyCondition → List (String × ℕ)
  | [] => []
  | c :: cs => c.eventAsks ++ eventAsksOf cs

end

namespace EventNeeds

theorem get_raise (name n : String) (count : ℕ) (needs : EventNeeds) :
    (raise name count needs).get n = if n = name then max (needs.get n) count else needs.get n := by
  induction needs with
  | nil =>
    unfold raise EventNeeds.get
    by_cases hn : n = name
    · subst hn
      simp
    · have hne : (n == name) = false := beq_eq_false_iff_ne.2 hn
      simp [List.lookup_cons, hne, hn]
  | cons need needs ih =>
    obtain ⟨m, k⟩ := need
    unfold EventNeeds.get at ih ⊢
    unfold raise
    by_cases hm : name = m
    · subst hm
      rw [if_pos rfl, List.lookup_cons, List.lookup_cons]
      by_cases hn : n = name
      · subst hn
        simp
      · have hne : (n == name) = false := beq_eq_false_iff_ne.2 hn
        rw [hne, if_neg hn]
    · rw [if_neg hm, List.lookup_cons, List.lookup_cons]
      by_cases hn : n = m
      · subst hn
        rw [if_neg (Ne.symm hm)]
        simp
      · have hne : (n == m) = false := beq_eq_false_iff_ne.2 hn
        rw [hne]
        exact ih

/-- A map has every key once. -/
theorem nodup_raise (name : String) (count : ℕ) {needs : EventNeeds}
    (h : (needs.map Prod.fst).Nodup) : ((raise name count needs).map Prod.fst).Nodup := by
  have hkeys : ∀ needs : EventNeeds, ∀ n ∈ (raise name count needs).map Prod.fst,
      n = name ∨ n ∈ needs.map Prod.fst := by
    intro needs
    induction needs with
    | nil => exact fun n hn => .inl (List.mem_singleton.1 hn)
    | cons need needs ih =>
      intro n hn
      unfold raise at hn
      split at hn
      · exact .inr hn
      · rcases List.mem_cons.1 hn with rfl | hn
        · exact .inr List.mem_cons_self
        · exact (ih n hn).imp_right (List.mem_cons_of_mem _)
  induction needs with
  | nil => exact List.nodup_singleton name
  | cons need needs ih =>
    obtain ⟨hhead, htail⟩ := List.nodup_cons.1 h
    unfold raise
    split
    · exact h
    · rename_i hne
      refine List.nodup_cons.2 ⟨fun hmem => ?_, ih htail⟩
      rcases hkeys needs _ hmem with heq | hin
      · exact hne heq.symm
      · exact hhead hin

/-- The counts that are noted, one after the other. -/
def raiseAll (asks : List (String × ℕ)) (needs : EventNeeds) : EventNeeds :=
  asks.foldl (fun needs a => raise a.1 a.2 needs) needs

theorem raiseAll_append (asks asks' : List (String × ℕ)) (needs : EventNeeds) :
    raiseAll (asks ++ asks') needs = raiseAll asks' (raiseAll asks needs) :=
  List.foldl_append

theorem nodup_raiseAll (asks : List (String × ℕ)) {needs : EventNeeds}
    (h : (needs.map Prod.fst).Nodup) : ((raiseAll asks needs).map Prod.fst).Nodup := by
  induction asks generalizing needs with
  | nil => exact h
  | cons a asks ih => exact ih (nodup_raise a.1 a.2 h)

theorem le_get_raiseAll (asks : List (String × ℕ)) (needs : EventNeeds) (name : String) :
    needs.get name ≤ (raiseAll asks needs).get name := by
  induction asks generalizing needs with
  | nil => exact le_rfl
  | cons a asks ih =>
    refine le_trans ?_ (ih (raise a.1 a.2 needs))
    rw [get_raise]
    split
    · exact le_max_left _ _
    · exact le_rfl

/-- Nothing that is asked for is forgotten. -/
theorem le_get_of_mem {asks : List (String × ℕ)} {a : String × ℕ} (h : a ∈ asks)
    (needs : EventNeeds) : a.2 ≤ (raiseAll asks needs).get a.1 := by
  induction asks generalizing needs with
  | nil => cases h
  | cons b asks ih =>
    rcases List.mem_cons.1 h with rfl | hmem
    · refine le_trans ?_ (le_get_raiseAll asks (raise a.1 a.2 needs) a.1)
      rw [get_raise, if_pos rfl]
      exact le_max_right _ _
    · exact ih hmem (raise b.1 b.2 needs)

end EventNeeds

mutual

theorem collectConditionNeeds_eq : ∀ (c : JourneyCondition) (needs : EventNeeds),
    collectConditionNeeds c needs = EventNeeds.raiseAll c.eventAsks needs
  | .all cs, needs => by
    rw [collectConditionNeeds, JourneyCondition.eventAsks, collectNeedsOf_eq cs]
  | .any cs, needs => by
    rw [collectConditionNeeds, JourneyCondition.eventAsks, collectNeedsOf_eq cs]
  | .not c, needs => by
    rw [collectConditionNeeds, JourneyCondition.eventAsks, collectConditionNeeds_eq c]
  | .event .., _ => rfl
  | .field .., _ => rfl
  | .context .., _ => rfl
  | .tag .., _ => rfl
  | .segment .., _ => rfl
  | .time .., _ => rfl

theorem collectNeedsOf_eq : ∀ (cs : List JourneyCondition) (needs : EventNeeds),
    collectNeedsOf cs needs = EventNeeds.raiseAll (eventAsksOf cs) needs
  | [], _ => rfl
  | c :: cs, needs => by
    rw [collectNeedsOf, eventAsksOf, EventNeeds.raiseAll_append, collectConditionNeeds_eq c,
      collectNeedsOf_eq cs]

end

/-! ### What is loaded -/

/-- **Of the first rows of a list, as many count as of all, up to their number**, if a row counts
whenever a later one does. -/
theorem countP_take_of_pairwise {α : Type*} {p : α → Bool} {l : List α}
    (h : l.Pairwise fun a b => p b = true → p a = true) (n : ℕ) :
    (l.take n).countP p = min n (l.countP p) := by
  induction l generalizing n with
  | nil => rw [List.take_nil, List.countP_nil, Nat.min_zero]
  | cons a l ih =>
    obtain ⟨hhead, htail⟩ := List.pairwise_cons.1 h
    cases n with
    | zero => rw [List.take_zero, List.countP_nil, Nat.zero_min]
    | succ n =>
      rw [List.take_succ_cons, List.countP_cons, List.countP_cons, ih htail]
      by_cases ha : p a = true
      · rw [if_pos ha, Nat.add_min_add_right]
      · -- no later row counts
        have hnone : l.countP p = 0 := List.countP_eq_zero.2 fun b hb hpb => ha (hhead b hb hpb)
        rw [if_neg ha, hnone, Nat.min_zero, Nat.min_zero]

section

variable {name : String} {rows : List (String × Instant)} {p : String × Instant → Bool}

theorem mem_latestOf {e : String × Instant} (h : e ∈ latestOf name rows) : e.1 = name :=
  of_decide_eq_true (List.mem_filter.1 ((List.perm_insertionSort _ _).mem_iff.1 h)).2

/-- All rows of the name count among its most recent ones. -/
theorem countP_latestOf (hp : ∀ e, p e = true → e.1 = name) :
    (latestOf name rows).countP p = rows.countP p := by
  rw [latestOf, (List.perm_insertionSort _ _).countP_eq, List.countP_filter]
  refine List.countP_congr fun e _ => ?_
  rw [Bool.and_eq_true, decide_eq_true_eq]
  exact ⟨fun h => h.1, fun h => ⟨h, hp e h⟩⟩

/-- Of the rows that are loaded, those of the name count. -/
theorem countP_loadedEvents (hp : ∀ e, p e = true → e.1 = name) {needs : EventNeeds}
    (hneeds : (needs.map Prod.fst).Nodup) :
    (loadedEvents needs rows).countP p =
      ((latestOf name rows).take (needs.get name)).countP p := by
  have hother : ∀ n k, n ≠ name → ((latestOf n rows).take k).countP p = 0 := fun n k hn =>
    List.countP_eq_zero.2 fun e he hpe =>
      hn ((mem_latestOf (List.mem_of_mem_take he)).symm.trans (hp e hpe))
  induction needs with
  | nil => rfl
  | cons need needs ih =>
    obtain ⟨n, k⟩ := need
    obtain ⟨hhead, htail⟩ := List.nodup_cons.1 hneeds
    have hsplit : (loadedEvents ((n, k) :: needs) rows).countP p =
        ((latestOf n rows).take k).countP p + (loadedEvents needs rows).countP p := by
      rw [loadedEvents, List.flatMap_cons, List.countP_append, loadedEvents]
    rw [hsplit, ih htail]
    unfold EventNeeds.get
    rw [List.lookup_cons]
    by_cases hn : name = n
    · subst hn
      have hrest : needs.lookup name = none := by
        rw [List.lookup_eq_none_iff]
        intro q hq
        exact bne_iff_ne.2 fun heq => hhead (List.mem_map.2 ⟨q, hq, heq.symm⟩)
      rw [hrest, beq_self_eq_true]
      rfl
    · have hne : (name == n) = false := beq_eq_false_iff_ne.2 hn
      rw [hother n k (Ne.symm hn), Nat.zero_add, hne]

/-- **The loaded rows are as many as the count needs**, or all that there are. -/
theorem countP_loaded (hp : ∀ e, p e = true → e.1 = name)
    (hlater : ∀ e e' : String × Instant, e.1 = name → e.2 ≤ e'.2 → e'.1 = name → p e = true →
      p e' = true) {needs : EventNeeds} (hneeds : (needs.map Prod.fst).Nodup) :
    (loadedEvents needs rows).countP p = min (needs.get name) (rows.countP p) := by
  have hall : rows.countP p = (latestOf name rows).countP p := (countP_latestOf hp).symm
  rw [countP_loadedEvents hp hneeds, hall]
  refine countP_take_of_pairwise ?_ _
  refine List.Pairwise.imp_of_mem ?_
    (List.pairwise_insertionSort (fun a b : String × Instant => b.2 ≤ a.2) _)
  intro e e' he he' hle
  exact hlater e' e (mem_latestOf he') hle (mem_latestOf he)

end

/-! ### The truth of conditions -/

section

variable {N : Type*} [LinearOrder N] (js : JsCompare N) (localClock : LocalClock)
  (tables : ConditionTables) (subject : ConditionSubject) {needs : EventNeeds}
  {rows : List (String × Instant)} {segments segments' : String → Bool}

variable {facts : ConditionFacts} {since : Option EventSince} {e : String × Instant}

/-- An event that counts has the name that is asked for. -/
theorem name_of_eventCounts {name : String} (h : eventCounts facts name since e = true) : e.1 = name
    :=
  of_decide_eq_true (Bool.and_eq_true_iff.1 h).1

/-- With an event, every later one of its name counts. -/
theorem eventCounts_of_le {name : String}
    {e' : String × Instant} (hle : e.2 ≤ e'.2) (hname : e'.1 = name)
    (h : eventCounts facts name since e = true) : eventCounts facts name since e' = true := by
  unfold eventCounts at h ⊢
  rw [Bool.and_eq_true] at h ⊢
  refine ⟨decide_eq_true hname, ?_⟩
  cases since with
  | none => rfl
  | some s => exact decide_eq_true ((of_decide_eq_true h.2).trans hle)

variable {cs : List JourneyCondition} {c : JourneyCondition}

theorem mem_eventAsksOf (hc : c ∈ cs)
    {a : String × ℕ} (ha : a ∈ c.eventAsks) : a ∈ eventAsksOf cs := by
  induction cs with
  | nil => cases hc
  | cons d cs ih =>
    rcases List.mem_cons.1 hc with rfl | hc
    · exact List.mem_append_left _ ha
    · exact List.mem_append_right _ (ih hc)

theorem mem_segmentIdsOf (hc : c ∈ cs)
    {s : String} (hs : s ∈ c.segmentIds) : s ∈ segmentIdsOf cs := by
  induction cs with
  | nil => cases hc
  | cons d cs ih =>
    rcases List.mem_cons.1 hc with rfl | hc
    · exact List.mem_append_left _ hs
    · exact List.mem_append_right _ (ih hc)

mutual

/-- The loaded facts decide a condition whose counts are noted and whose segments are known. -/
theorem evaluate_loaded (hneeds : (needs.map Prod.fst).Nodup) : ∀ c : JourneyCondition,
    (∀ a ∈ c.eventAsks, a.2 ≤ needs.get a.1) → (∀ s ∈ c.segmentIds, segments s = segments' s) →
    evaluateCondition js localClock c
        (factsWith tables subject (loadedEvents needs rows) segments) =
      evaluateCondition js localClock c (factsWith tables subject rows segments')
  | .all cs, hasks, hsegments => evaluateAll_loaded hneeds cs hasks hsegments
  | .any cs, hasks, hsegments => evaluateAny_loaded hneeds cs hasks hsegments
  | .not c, hasks, hsegments => by
    rw [evaluateCondition, evaluateCondition, evaluate_loaded hneeds c hasks hsegments]
  | .event event occurred since minCount, hasks, _ => by
    have hask : minCount.getD 1 ≤ needs.get event := hasks _ (List.mem_singleton_self _)
    have hcount : (loadedEvents needs rows).countP
        (eventCounts (factsWith tables subject rows segments') event since) = min (needs.get event)
          (rows.countP (eventCounts (factsWith tables subject rows segments') event since)) :=
      countP_loaded (fun _ => name_of_eventCounts)
        (fun _ _ _ hle hname h => eventCounts_of_le hle hname h) hneeds
    -- the window of time is the same in both facts
    have hmatched : decide (minCount.getD 1 ≤ (loadedEvents needs rows).countP
          (eventCounts (factsWith tables subject (loadedEvents needs rows) segments) event since)) =
        decide (minCount.getD 1 ≤
          rows.countP (eventCounts (factsWith tables subject rows segments') event since)) := by
      refine decide_eq_decide.2 ((iff_of_eq (congrArg _ hcount)).trans ?_)
      exact le_min_iff.trans (and_iff_right hask)
    unfold evaluateCondition
    dsimp only
    exact congrArg (fun matched => if occurred.getD true then matched else !matched) hmatched
  | .segment segment member, _, hsegments => by
    have hsame : segments segment = segments' segment := hsegments _ (List.mem_singleton_self _)
    show (segments segment == member.getD true) = (segments' segment == member.getD true)
    rw [hsame]
  | .field .., _, _ => rfl
  | .context .., _, _ => rfl
  | .tag .., _, _ => rfl
  | .time .., _, _ => rfl

theorem evaluateAll_loaded (hneeds : (needs.map Prod.fst).Nodup) :
    ∀ cs : List JourneyCondition,
    (∀ a ∈ eventAsksOf cs, a.2 ≤ needs.get a.1) → (∀ s ∈ segmentIdsOf cs, segments s = segments' s) →
    evaluateAll js localClock cs (factsWith tables subject (loadedEvents needs rows) segments) =
      evaluateAll js localClock cs (factsWith tables subject rows segments')
  | [], _, _ => rfl
  | c :: cs, hasks, hsegments => by
    rw [evaluateAll, evaluateAll,
      evaluate_loaded hneeds c (fun a ha => hasks a (List.mem_append_left _ ha))
        fun s hs => hsegments s (List.mem_append_left _ hs),
      evaluateAll_loaded hneeds cs (fun a ha => hasks a (List.mem_append_right _ ha))
        fun s hs => hsegments s (List.mem_append_right _ hs)]

theorem evaluateAny_loaded (hneeds : (needs.map Prod.fst).Nodup) :
    ∀ cs : List JourneyCondition,
    (∀ a ∈ eventAsksOf cs, a.2 ≤ needs.get a.1) → (∀ s ∈ segmentIdsOf cs, segments s = segments' s) →
    evaluateAny js localClock cs (factsWith tables subject (loadedEvents needs rows) segments) =
      evaluateAny js localClock cs (factsWith tables subject rows segments')
  | [], _, _ => rfl
  | c :: cs, hasks, hsegments => by
    rw [evaluateAny, evaluateAny,
      evaluate_loaded hneeds c (fun a ha => hasks a (List.mem_append_left _ ha))
        fun s hs => hsegments s (List.mem_append_left _ hs),
      evaluateAny_loaded hneeds cs (fun a ha => hasks a (List.mem_append_right _ ha))
        fun s hs => hsegments s (List.mem_append_right _ hs)]

end

/-- What the runtime notes is enough for each of its conditions. -/
theorem evaluate_noted {conditions : List JourneyCondition}
    (hc : c ∈ conditions) (hsegments : ∀ s ∈ segmentIdsOf conditions, segments s = segments' s) :
    evaluateCondition js localClock c
        (factsWith tables subject (loadedEvents (collectNeedsOf conditions []) rows) segments) =
      evaluateCondition js localClock c (factsWith tables subject rows segments') := by
  have hneeds : ((collectNeedsOf conditions []).map Prod.fst).Nodup := by
    rw [collectNeedsOf_eq]
    exact EventNeeds.nodup_raiseAll _ List.nodup_nil
  refine evaluate_loaded js localClock tables subject hneeds c (fun a ha => ?_) fun s hs => ?_
  · rw [collectNeedsOf_eq]
    exact EventNeeds.le_get_of_mem (mem_eventAsksOf hc ha) []
  · exact hsegments s (mem_segmentIdsOf hc hs)

theorem segments_noted (conditions : List JourneyCondition) :
    ∀ s ∈ segmentIdsOf conditions,
      (decide (s ∈ segmentIdsOf conditions) && subject.inSegment tables s) =
        subject.inSegment tables s := fun s hs => by
  rw [decide_eq_true hs, Bool.true_and]

/-- What the conditions of a branch say of facts. -/
def StepEnv.withFacts (env : StepEnv) (facts : ConditionFacts) : StepEnv :=
  { env with holds := fun c => evaluateCondition js localClock c facts }

/-- A branch goes the way that the whole history says. -/
theorem executeBranch_conditionFacts (env : StepEnv) (node : BranchNode) :
    executeBranch (env.withFacts js localClock
        (conditionFacts tables subject (node.rules.map (·.condition)))) node =
      executeBranch (env.withFacts js localClock (fullFacts tables subject)) node := by
  have hfind : (node.rules.zipIdx.find? fun r => evaluateCondition js localClock r.1.condition
        (conditionFacts tables subject (node.rules.map (·.condition)))) =
      node.rules.zipIdx.find? fun r => evaluateCondition js localClock r.1.condition
        (fullFacts tables subject) := by
    refine List.find?_congr fun r hr => ?_
    have hrule : r.1 ∈ node.rules := (List.mem_zipIdx' hr).2 ▸ List.getElem_mem _
    exact evaluate_noted js localClock tables subject
      (List.mem_map.2 ⟨r.1, hrule, rfl⟩) (segments_noted tables subject _)
  unfold executeBranch StepEnv.withFacts
  dsimp only
  rw [hfind]

/-- **Conditions on the loaded facts are conditions on the whole history**: each of the conditions
that the facts are loaded for, with whatever is in it, has the same truth value. -/
theorem evaluateCondition_conditionFacts (conditions : List JourneyCondition)
    {c : JourneyCondition} (hc : c ∈ conditions) :
    evaluateCondition js localClock c (conditionFacts tables subject conditions) =
      evaluateCondition js localClock c (fullFacts tables subject) :=
  evaluate_noted js localClock tables subject hc (segments_noted tables subject conditions)

end

/-! ### A sample -/

/-- Comparisons of whole numbers; no text is a date. -/
def wholeNumbers : JsCompare ℤ where
  toLowerCase := id
  value n := (String.ofList n.chars).toInt?.getD 0
  getTime t := t
  number s := s.toInt?.getD 0
  dateParse _ := none

/-- Two logins at least, but not two in the last week. -/
def fadedCondition : JourneyCondition :=
  .all [.event "login" none none (some 2), .not (.event "login" none (some (.days 7)) (some 2))]

/-- A contact with three logins, each a week after the other. -/
def loginTables : ConditionTables where
  orgId := "o1"
  events := [0, 604800000, 1209600000].map fun t =>
    { orgId := "o1", name := "login", contactId := some "c1", endUserId := none, occurredAt := t }

def loginSubject : ConditionSubject where
  contactId := some "c1"
  endUserId := none
  companyId := none
  context := []
  enteredAt := 0
  now := 1209600000 + 86400000
  timezone := "UTC"

theorem evaluateCondition_conditionFacts_sample :
    (conditionFacts loginTables loginSubject [fadedCondition]).events.length = 2 ∧
    (fullFacts loginTables loginSubject).events.length = 3 ∧
    evaluateCondition wholeNumbers (fun _ _ => (.mon, 0)) fadedCondition
        (conditionFacts loginTables loginSubject [fadedCondition]) =
      evaluateCondition wholeNumbers (fun _ _ => (.mon, 0)) fadedCondition
        (fullFacts loginTables loginSubject) :=
  ⟨by decide +kernel, by decide +kernel,
    evaluateCondition_conditionFacts wholeNumbers (fun _ _ => (.mon, 0)) loginTables loginSubject
      [fadedCondition] List.mem_cons_self⟩

end Munin
